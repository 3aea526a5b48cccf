import Lissandra.Console
import Mathlib.Logic.Function.Basic

/-! # The scheduler of the kernel

`scheduler.c`, `long_term_scheduler.c` and `short_term_scheduler.c`: the queues, the flags
and the semaphores, and the threads that share them.  Process control blocks are in memory
by their address, and the queues have addresses.

A step is a wait of a thread that comes to its end, or the body of a loop.  For the short
term scheduler these are the bodies of its two inner loops, so its state says in which of
them it is, and where.  A thread of a slot waits for its first semaphore, has a statement
executed, waits for its second semaphore, and then sees what is next for the process.
`none` is a step that cannot be taken, or one at which the kernel would crash.
-/
namespace Lissandra

/-! ## Process control blocks -/

/-- `t_state`. -/
inductive PcbState where
  | new
  | ready
  | exec
  | exit
  deriving DecidableEq

/-- `pcb_t`, without its number and its statistics. -/
structure Pcb where
  state : PcbState
  programCounter : Nat
  quantum : Int
  statements : List Statement
  errors : Bool
  recentlyReady : Bool
  recentlyExec : Bool
  processor : Nat

/-- `get_new_pcb` with its statements.  The quantum and the processor are what the memory had. -/
def getNewPcb (statements : List Statement) (quantum : Int) (processor : Nat) : Pcb :=
  ⟨.new, 0, quantum, statements, false, false, false, processor⟩

/-- The address of a process control block. -/
abbrev PcbPointer := Nat

/-! ## State -/

/-- Where the long term scheduler is. -/
inductive LongTermPoint where
  | waiting
  | body
  deriving DecidableEq

/-- Where the short term scheduler is: at its semaphore, or before the iteration of one of its
inner loops with this index. -/
inductive ShortTermPoint where
  | waiting
  | slots (i : Nat)
  | entries (i : Nat)
  deriving DecidableEq

/-- Where the thread of a slot is: before its first semaphore, in a statement of a process, or
before its second semaphore. -/
inductive ExecPoint where
  | waitingInit
  | executing (pcb : PcbPointer)
  | waitingExec
  deriving DecidableEq

/-- The scheduler. -/
structure Scheduler where
  pcb : PcbPointer → Option Pcb
  new : List PcbPointer
  ready : List PcbPointer
  exec : List (Option PcbPointer)
  exit : List PcbPointer
  execSemaphoresInit : Nat → Nat
  execSemaphores : Nat → Nat
  pcbsToReady : List (Option PcbPointer)
  stsSemaphore : Nat
  ltsSemaphore : Nat
  /-- The quantum of the configuration. -/
  quantum : Int
  longTerm : LongTermPoint
  shortTerm : ShortTermPoint
  planifier : Nat → ExecPoint

/-- After `setup_scheduler_queues` and the start of both schedulers. -/
def setupScheduler (multiprocessing : Nat) (quantum : Int) : Scheduler where
  pcb _ := none
  new := []
  ready := []
  exec := List.replicate multiprocessing none
  exit := []
  execSemaphoresInit _ := 0
  execSemaphores _ := 0
  pcbsToReady := List.replicate multiprocessing none
  stsSemaphore := 0
  ltsSemaphore := 0
  quantum := quantum
  longTerm := .waiting
  shortTerm := .waiting
  planifier _ := .waitingInit

/-- `sem_post_neg`. -/
def semPostNeg (semaphore : Nat) : Nat := if semaphore = 0 then semaphore + 1 else semaphore

namespace Scheduler
variable (s : Scheduler)

/-- A process control block is written to. -/
def setPcb (pointer : PcbPointer) (pcb : Pcb) : Scheduler :=
  { s with pcb := Function.update s.pcb pointer (some pcb) }

/-! ## Threads -/

/-- The end of `process_select`, `process_run` and the others: the process is in `new`. -/
def addProcess (pointer : PcbPointer) (pcb : Pcb) : Scheduler :=
  { s.setPcb pointer pcb with new := s.new ++ [pointer], ltsSemaphore := s.ltsSemaphore + 1 }

/-- `long_term_schedule`: the first of `new` goes to `ready`. -/
def toReady (pointer : PcbPointer) (rest : List PcbPointer) (pcb : Pcb) : Scheduler :=
  { s.setPcb pointer { pcb with state := .ready } with
    new := rest
    ready := s.ready ++ [pointer]
    stsSemaphore := semPostNeg s.stsSemaphore }

/-- `long_term_schedule`: the first of `exit` is deleted, and the first of the entries that has it
is cleared. -/
def deletePcb (pointer : PcbPointer) (rest : List PcbPointer) : Scheduler :=
  { s with
    exit := rest
    pcbsToReady := s.pcbsToReady.replace (some pointer) none
    pcb := Function.update s.pcb pointer none }

/-- The body of `long_term_schedule`. -/
def longTermSchedule : Option Scheduler :=
  match s.new with
  | pointer :: rest => do
    let pcb ← s.pcb pointer
    some (s.toReady pointer rest pcb)
  | [] =>
    match s.exit with
    | pointer :: rest => do
      let _ ← s.pcb pointer
      some (s.deletePcb pointer rest)
    | [] => some s

/-- `short_term_schedule`: the first of `ready` goes to an empty slot. -/
def toExec (i : Nat) (pointer : PcbPointer) (rest : List PcbPointer) (pcb : Pcb) : Scheduler :=
  { s.setPcb pointer { pcb with state := .exec, quantum := 0, recentlyExec := true } with
    ready := rest
    exec := (s.exec.eraseIdx i).insertIdx i (some pointer)
    stsSemaphore := semPostNeg s.stsSemaphore }

/-- `short_term_schedule`: the process that came to a slot is started. -/
def startExec (i : Nat) (pointer : PcbPointer) (pcb : Pcb) : Scheduler :=
  { s.setPcb pointer
    { pcb with processor := i, quantum := pcb.quantum + 1, recentlyExec := false } with
    execSemaphoresInit := Function.update s.execSemaphoresInit i (s.execSemaphoresInit i + 1) }

/-- The body of the first inner loop of `short_term_schedule`. -/
def scheduleSlot (i : Nat) : Option Scheduler :=
  match s.exec[i]?.join with
  | none =>
    match s.ready with
    | [] => some s
    | pointer :: rest => do
      let pcb ← s.pcb pointer
      if pcb.recentlyReady then some s else some (s.toExec i pointer rest pcb)
  | some pointer => do
    let pcb ← s.pcb pointer
    if pcb.recentlyExec then some (s.startExec i pointer pcb) else some s

/-- `short_term_schedule`: the process of an entry may go to a slot again. -/
def clearFlag (i : Nat) (pointer : PcbPointer) (pcb : Pcb) : Scheduler :=
  { s.setPcb pointer { pcb with recentlyReady := false } with
    pcbsToReady := s.pcbsToReady.set i none
    stsSemaphore := semPostNeg s.stsSemaphore }

/-- The body of the second inner loop of `short_term_schedule`. -/
def clearEntry (i : Nat) : Option Scheduler :=
  match s.pcbsToReady[i]?.join with
  | none => some s
  | some pointer => do
    let pcb ← s.pcb pointer
    if pcb.recentlyReady then some (s.clearFlag i pointer pcb) else some s

/-- `exec_next_statement`: the statement of the process in the slot. -/
def execNextStatement (i : Nat) : Option Scheduler := do
  let pointer ← s.exec[i]?.join
  let pcb ← s.pcb pointer
  let _ ← pcb.statements[pcb.programCounter]?
  some { s with planifier := Function.update s.planifier i (.executing pointer) }

/-- A process after a statement, which may have failed. -/
def afterStatement (pcb : Pcb) (errors : Bool) : Pcb :=
  if pcb.errors || errors then { pcb with errors := true, programCounter := pcb.statements.length }
  else { pcb with programCounter := pcb.programCounter + 1 }

/-- `post_exec_statement`, where `errors` says whether the statement has failed. -/
def postExecStatement (pointer : PcbPointer) (errors : Bool) : Option Scheduler := do
  let pcb ← s.pcb pointer
  some { s.setPcb pointer (afterStatement pcb errors) with
    execSemaphores :=
      Function.update s.execSemaphores pcb.processor (s.execSemaphores pcb.processor + 1) }

/-- `planifier_execute`: the process has no statement left. -/
def toExit (i : Nat) (pointer : PcbPointer) (pcb : Pcb) : Scheduler :=
  { s.setPcb pointer { pcb with state := .exit } with
    exec := (s.exec.eraseIdx i).insertIdx i none
    exit := s.exit ++ [pointer]
    pcbsToReady := s.pcbsToReady.set i none
    ltsSemaphore := s.ltsSemaphore + 1
    stsSemaphore := semPostNeg s.stsSemaphore }

/-- `planifier_execute`: the process goes back to `ready`. -/
def backToReady (i : Nat) (pointer : PcbPointer) (pcb : Pcb) : Scheduler :=
  { s.setPcb pointer { pcb with state := .ready, recentlyReady := true } with
    exec := (s.exec.eraseIdx i).insertIdx i none
    ready := s.ready ++ [pointer]
    pcbsToReady := s.pcbsToReady.set i (some pointer)
    stsSemaphore := semPostNeg s.stsSemaphore }

/-- `planifier_execute`: the next statement is started. -/
def continueExec (i : Nat) (pointer : PcbPointer) (pcb : Pcb) : Scheduler :=
  { s.setPcb pointer { pcb with processor := i, quantum := pcb.quantum + 1 } with
    execSemaphoresInit := Function.update s.execSemaphoresInit i (s.execSemaphoresInit i + 1) }

/-- `planifier_execute` after its second semaphore. -/
def planifierExecute (i : Nat) : Option Scheduler := do
  let pointer ← s.exec[i]?.join
  let pcb ← s.pcb pointer
  if pcb.statements.length ≤ pcb.programCounter then some (s.toExit i pointer pcb)
  else if s.quantum ≤ pcb.quantum then some (s.backToReady i pointer pcb)
  else some (s.continueExec i pointer pcb)

/-! ## Steps -/

/-- A step of the long term scheduler. -/
def longTermStep : Option Scheduler :=
  match s.longTerm with
  | .waiting =>
    if s.ltsSemaphore = 0 then none
    else some { s with ltsSemaphore := s.ltsSemaphore - 1, longTerm := .body }
  | .body => s.longTermSchedule.map fun s => { s with longTerm := .waiting }

/-- A step of the short term scheduler. -/
def shortTermStep : Option Scheduler :=
  match s.shortTerm with
  | .waiting =>
    if s.stsSemaphore = 0 then none
    else some { s with stsSemaphore := s.stsSemaphore - 1, shortTerm := .slots 0 }
  | .slots i =>
    if i < s.exec.length then (s.scheduleSlot i).map fun s => { s with shortTerm := .slots (i + 1) }
    else some { s with shortTerm := .entries 0 }
  | .entries i =>
    if i < s.pcbsToReady.length then (s.clearEntry i).map fun s =>
      { s with shortTerm := .entries (i + 1) }
    else some { s with shortTerm := .waiting }

/-- The thread of a slot gets past its first semaphore, and starts a statement. -/
def startStatement (i : Nat) : Option Scheduler :=
  if s.planifier i = .waitingInit ∧ s.execSemaphoresInit i ≠ 0 then
    execNextStatement
      { s with
        execSemaphoresInit :=
          Function.update s.execSemaphoresInit i (s.execSemaphoresInit i - 1) } i
  else none

/-- The statement of a slot comes to its end, in its callback or before a request.  A statement that
was started ends once; a second call of `on_journal` is in `StatementEnds`. -/
def endStatement (i : Nat) (errors : Bool) : Option Scheduler :=
  match s.planifier i with
  | .executing pointer =>
    (s.postExecStatement pointer errors).map fun s =>
      { s with planifier := Function.update s.planifier i .waitingExec }
  | _ => none

/-- The thread of a slot is past its second semaphore. -/
def pastSemaphore (i : Nat) : Scheduler :=
  { s with
    execSemaphores := Function.update s.execSemaphores i (s.execSemaphores i - 1)
    planifier := Function.update s.planifier i .waitingInit }

/-- The thread of a slot gets past its second semaphore, and sees what is next. -/
def postStatement (i : Nat) : Option Scheduler :=
  if s.planifier i = .waitingExec ∧ s.execSemaphores i ≠ 0 then
    (s.pastSemaphore i).planifierExecute i
  else none

end Scheduler

/-- What can happen. -/
inductive SchedulerAction where
  /-- A command or a script comes, and its process is allocated at this address. -/
  | arrive (pointer : PcbPointer) (statements : List Statement) (quantum : Int) (processor : Nat)
  | longTerm
  | shortTerm
  | startStatement (i : Nat)
  | endStatement (i : Nat) (errors : Bool)
  | postStatement (i : Nat)
  /-- The configuration is read anew. -/
  | configure (quantum : Int)

def Scheduler.step (s : Scheduler) : SchedulerAction → Option Scheduler
  | .arrive pointer statements quantum processor =>
    if s.pcb pointer = none then some
      (s.addProcess pointer (getNewPcb statements quantum processor)) else none
  | .longTerm => s.longTermStep
  | .shortTerm => s.shortTermStep
  | .startStatement i => s.startStatement i
  | .endStatement i errors => s.endStatement i errors
  | .postStatement i => s.postStatement i
  | .configure quantum => some { s with quantum := quantum }

/-! ## What the loop bodies do -/

namespace Scheduler
variable {s s' : Scheduler} {pointer : PcbPointer} {i : Nat}

theorem longTermSchedule_cases (h : s.longTermSchedule = some s') :
    (∃ pointer rest pcb, s.new = pointer :: rest ∧ s.pcb pointer = some pcb ∧
        s' = s.toReady pointer rest pcb) ∨
    (∃ pointer rest pcb, s.new = [] ∧ s.exit = pointer :: rest ∧ s.pcb pointer = some pcb ∧
      s' = s.deletePcb pointer rest) ∨
    (s.new = [] ∧ s.exit = [] ∧ s' = s) := by
  unfold longTermSchedule at h
  split at h
  · obtain ⟨pcb, hpcb, hrest⟩ := Option.bind_eq_some_iff.mp h
    exact .inl ⟨_, _, pcb, ‹_›, hpcb, (Option.some.inj hrest).symm⟩
  · split at h
    · obtain ⟨pcb, hpcb, hrest⟩ := Option.bind_eq_some_iff.mp h
      exact .inr (.inl ⟨_, _, pcb, ‹_›, ‹_›, hpcb, (Option.some.inj hrest).symm⟩)
    · exact .inr (.inr ⟨‹_›, ‹_›, (Option.some.inj h).symm⟩)

theorem scheduleSlot_cases (hi : i < s.exec.length) (h : s.scheduleSlot i = some s') :
    (s.exec[i]? = some none ∧ s.ready = [] ∧ s' = s) ∨
    (∃ pointer rest pcb, s.exec[i]? = some none ∧ s.ready = pointer :: rest ∧
        s.pcb pointer = some pcb ∧
      (pcb.recentlyReady = true ∧ s' = s ∨
        pcb.recentlyReady = false ∧ s' = s.toExec i pointer rest pcb)) ∨
    (∃ pointer pcb, s.exec[i]? = some (some pointer) ∧ s.pcb pointer = some pcb ∧
      (pcb.recentlyExec = true ∧ s' = s.startExec i pointer pcb ∨ pcb.recentlyExec = false ∧
        s' = s)) := by
  unfold scheduleSlot at h
  split at h
  · next hslot =>
    have hempty : s.exec[i]? = some none := by
      rw [List.getElem?_eq_getElem hi] at hslot ⊢
      exact congrArg some hslot
    split at h
    · exact .inl ⟨hempty, ‹_›, (Option.some.inj h).symm⟩
    · obtain ⟨pcb, hpcb, hrest⟩ := Option.bind_eq_some_iff.mp h
      refine .inr (.inl ⟨_, _, pcb, hempty, ‹_›, hpcb, ?_⟩)
      split at hrest
      · exact .inl ⟨‹_›, (Option.some.inj hrest).symm⟩
      · exact .inr ⟨eq_false_of_ne_true ‹_›, (Option.some.inj hrest).symm⟩
  · next hslot =>
    obtain ⟨pcb, hpcb, hrest⟩ := Option.bind_eq_some_iff.mp h
    refine .inr (.inr ⟨_, pcb, Option.join_eq_some_iff.mp hslot, hpcb, ?_⟩)
    split at hrest
    · exact .inl ⟨‹_›, (Option.some.inj hrest).symm⟩
    · exact .inr ⟨eq_false_of_ne_true ‹_›, (Option.some.inj hrest).symm⟩

theorem clearEntry_cases (hi : i < s.pcbsToReady.length) (h : s.clearEntry i = some s') :
    (s.pcbsToReady[i]? = some none ∧ s' = s) ∨
    (∃ pointer pcb, s.pcbsToReady[i]? = some (some pointer) ∧ s.pcb pointer = some pcb ∧
      (pcb.recentlyReady = true ∧ s' = s.clearFlag i pointer pcb ∨ pcb.recentlyReady = false ∧
        s' = s)) := by
  unfold clearEntry at h
  split at h
  · next hentry =>
    rw [List.getElem?_eq_getElem hi] at hentry ⊢
    exact .inl ⟨congrArg some hentry, (Option.some.inj h).symm⟩
  · next hentry =>
    obtain ⟨pcb, hpcb, hrest⟩ := Option.bind_eq_some_iff.mp h
    refine .inr ⟨_, pcb, Option.join_eq_some_iff.mp hentry, hpcb, ?_⟩
    split at hrest
    · exact .inl ⟨‹_›, (Option.some.inj hrest).symm⟩
    · exact .inr ⟨eq_false_of_ne_true ‹_›, (Option.some.inj hrest).symm⟩

theorem planifierExecute_cases (h : s.planifierExecute i = some s') :
    ∃ pointer pcb, s.exec[i]? = some (some pointer) ∧ s.pcb pointer = some pcb ∧
      (pcb.statements.length ≤ pcb.programCounter ∧ s' = s.toExit i pointer pcb ∨
        s' = s.backToReady i pointer pcb ∨ s' = s.continueExec i pointer pcb) := by
  unfold planifierExecute at h
  obtain ⟨pointer, hslot, hrest⟩ := Option.bind_eq_some_iff.mp h
  obtain ⟨pcb, hpcb, hbody⟩ := Option.bind_eq_some_iff.mp hrest
  refine ⟨pointer, pcb, Option.join_eq_some_iff.mp hslot, hpcb, ?_⟩
  split at hbody
  · exact .inl ⟨‹_›, (Option.some.inj hbody).symm⟩
  · split at hbody
    · exact .inr (.inl (Option.some.inj hbody).symm)
    · exact .inr (.inr (Option.some.inj hbody).symm)

/-- What a step is: an arrival, a wait, a loop body, the end of a loop, or a part of a statement. -/
inductive Effect (s : Scheduler) : Scheduler → Prop
  | arrive (pointer : PcbPointer) (pcb : Pcb) (free : s.pcb pointer = none)
      (state : pcb.state = .new) (ready : pcb.recentlyReady = false)
      (exec : pcb.recentlyExec = false) : Effect s (s.addProcess pointer pcb)
  | longTermWait (point : s.longTerm = .waiting) (posted : s.ltsSemaphore ≠ 0) :
      Effect s { s with ltsSemaphore := s.ltsSemaphore - 1, longTerm := .body }
  | longTermBody {after : Scheduler} (point : s.longTerm = .body)
      (body : s.longTermSchedule = some after) : Effect s { after with longTerm := .waiting }
  | shortTermWait (point : s.shortTerm = .waiting) (posted : s.stsSemaphore ≠ 0) :
      Effect s { s with stsSemaphore := s.stsSemaphore - 1, shortTerm := .slots 0 }
  | slot {after : Scheduler} (i : Nat) (point : s.shortTerm = .slots i) (hi : i < s.exec.length)
      (body : s.scheduleSlot i = some after) : Effect s { after with shortTerm := .slots (i + 1) }
  | slotsEnd (i : Nat) (point : s.shortTerm = .slots i) (hi : s.exec.length ≤ i) :
      Effect s { s with shortTerm := .entries 0 }
  | entry {after : Scheduler} (i : Nat) (point : s.shortTerm = .entries i)
      (hi : i < s.pcbsToReady.length) (body : s.clearEntry i = some after) :
      Effect s { after with shortTerm := .entries (i + 1) }
  | entriesEnd (i : Nat) (point : s.shortTerm = .entries i) (hi : s.pcbsToReady.length ≤ i) :
      Effect s { s with shortTerm := .waiting }
  | startStatement (i : Nat) (pointer : PcbPointer) (point : s.planifier i = .waitingInit)
      (posted : s.execSemaphoresInit i ≠ 0) (slot : s.exec[i]? = some (some pointer)) :
      Effect s { s with
        execSemaphoresInit := Function.update s.execSemaphoresInit i (s.execSemaphoresInit i - 1)
        planifier := Function.update s.planifier i (.executing pointer) }
  | endStatement (i : Nat) (errors : Bool) (pointer : PcbPointer) (pcb : Pcb)
      (point : s.planifier i = .executing pointer) (hpcb : s.pcb pointer = some pcb) :
      Effect s { s.setPcb pointer (afterStatement pcb errors) with
        execSemaphores := Function.update s.execSemaphores pcb.processor
          (s.execSemaphores pcb.processor + 1)
        planifier := Function.update s.planifier i .waitingExec }
  | postStatement {after : Scheduler} (i : Nat) (point : s.planifier i = .waitingExec)
      (posted : s.execSemaphores i ≠ 0)
      (body : (s.pastSemaphore i).planifierExecute i = some after) : Effect s after
  | configure (quantum : Int) : Effect s { s with quantum := quantum }

theorem step_effect {action : SchedulerAction} (h : s.step action = some s') : s.Effect s' := by
  cases action with
  | arrive pointer statements quantum processor =>
    replace h : (if s.pcb pointer = none then
      some (s.addProcess pointer (getNewPcb statements quantum processor)) else none) = some s' := h
    split at h
    · obtain rfl := Option.some.inj h
      exact .arrive pointer _ ‹_› rfl rfl rfl
    · cases h
  | longTerm =>
    replace h : s.longTermStep = some s' := h
    unfold longTermStep at h
    split at h
    · split at h
      · cases h
      · obtain rfl := Option.some.inj h
        exact .longTermWait ‹_› ‹_›
    · obtain ⟨after, hbody, rfl⟩ := Option.map_eq_some_iff.mp h
      exact .longTermBody ‹_› hbody
  | shortTerm =>
    replace h : s.shortTermStep = some s' := h
    unfold shortTermStep at h
    split at h
    · split at h
      · cases h
      · obtain rfl := Option.some.inj h
        exact .shortTermWait ‹_› ‹_›
    · split at h
      · obtain ⟨after, hbody, rfl⟩ := Option.map_eq_some_iff.mp h
        exact .slot _ ‹_› ‹_› hbody
      · obtain rfl := Option.some.inj h
        exact .slotsEnd _ ‹_› (Nat.le_of_not_lt ‹_›)
    · split at h
      · obtain ⟨after, hbody, rfl⟩ := Option.map_eq_some_iff.mp h
        exact .entry _ ‹_› ‹_› hbody
      · obtain rfl := Option.some.inj h
        exact .entriesEnd _ ‹_› (Nat.le_of_not_lt ‹_›)
  | startStatement i =>
    replace h : s.startStatement i = some s' := h
    unfold startStatement at h
    split at h
    · next hpoint =>
      obtain ⟨pointer, hslot, hrest⟩ := Option.bind_eq_some_iff.mp h
      obtain ⟨pcb, -, hstatement⟩ := Option.bind_eq_some_iff.mp hrest
      obtain ⟨statement, -, hstart⟩ := Option.bind_eq_some_iff.mp hstatement
      obtain rfl := Option.some.inj hstart
      exact .startStatement i pointer hpoint.1 hpoint.2 (Option.join_eq_some_iff.mp hslot)
    · cases h
  | endStatement i errors =>
    replace h : s.endStatement i errors = some s' := h
    unfold endStatement at h
    split at h
    · next hpoint =>
      obtain ⟨after, hbody, rfl⟩ := Option.map_eq_some_iff.mp h
      obtain ⟨pcb, hpcb, hpost⟩ := Option.bind_eq_some_iff.mp hbody
      obtain rfl := Option.some.inj hpost
      exact .endStatement i errors _ pcb hpoint hpcb
    · cases h
  | postStatement i =>
    replace h : s.postStatement i = some s' := h
    unfold postStatement at h
    split at h
    · next hpoint => exact .postStatement i hpoint.1 hpoint.2 h
    · cases h
  | configure quantum =>
    obtain rfl := Option.some.inj h
    exact .configure quantum

end Scheduler

end Lissandra
