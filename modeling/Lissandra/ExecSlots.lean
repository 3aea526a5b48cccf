import Lissandra.ListHoles
import Lissandra.Runs
import Lissandra.Scheduler
import Lissandra.Semaphore

/-! # Calls on the list of the slots

`short_term_schedule` and the threads of `planifier_execute` once more, where each call on a list is
a step of its own.  A slot of `exec` is written by a `list_remove` and a `list_add_in_index`, and
between the two every slot behind it is one index further to the front.  Only the schedulers take
`g_inner_scheduler_semaphore` for this; the threads of the slots do not.

A call meets its slot as long as no slot in front of it is taken out (`Undisturbed`).  In a run of
such calls a thread reads the process that was started on its slot, and every process is in one
place (`slots_kept`).

The long term scheduler is there for the processes that it brings and deletes, at any time.  Writing
to a process control block that is freed changes nothing.
-/
namespace Lissandra

/-! ## State -/

/-- Where the short term scheduler is: at its semaphore, before a call of the iteration of its first
loop for slot `i`, or before the iteration of its second loop with this index. -/
inductive ShortTermCall where
  | waiting
  /-- `list_size(exec)`. -/
  | size (i : Nat)
  /-- `list_get(exec, i)`. -/
  | get (i : Nat)
  /-- The slot was read as empty. -/
  | empty (i : Nat)
  /-- `list_remove(ready, 0)`. -/
  | takeReady (i : Nat) (pointer : PcbPointer)
  /-- `list_remove(exec, i)`. -/
  | remove (i : Nat) (pointer : PcbPointer)
  /-- `list_add_in_index(exec, i, pcb)`. -/
  | insert (i : Nat) (pointer : PcbPointer)
  /-- The process is in its slot, and its fields are to be set. -/
  | flag (i : Nat) (pointer : PcbPointer)
  /-- The slot was read with this process. -/
  | found (i : Nat) (pointer : PcbPointer)
  /-- The semaphore of the slot is posted. -/
  | posted (i : Nat) (pointer : PcbPointer)
  | entries (i : Nat)
  deriving DecidableEq

/-- Where the thread of a slot is.  `finished` says whether the process goes to `exit` or back to
`ready`. -/
inductive PlanifierCall where
  | waitingInit
  /-- `list_get(exec, processor)` of `exec_next_statement`. -/
  | next
  | executing (read : Option PcbPointer)
  | waitingExec
  /-- `list_get(exec, exec_id)`. -/
  | look
  | decide (read : Option PcbPointer)
  /-- `list_remove(exec, exec_id)`. -/
  | remove (pointer : PcbPointer) (finished : Bool)
  /-- `list_add`. -/
  | add (pointer : PcbPointer) (finished : Bool)
  /-- `list_replace(__pcbs_to_ready, exec_id, pcb)`. -/
  | replace (pointer : PcbPointer)
  /-- `list_add_in_index(exec, exec_id, NULL)`. -/
  | insert (pointer : PcbPointer) (finished : Bool)
  /-- The slot is empty, and the schedulers are to be told. -/
  | done (pointer : PcbPointer) (finished : Bool)
  deriving DecidableEq

/-- The scheduler.  `started` are the processes that were last started on the slots. -/
structure ExecSlots where
  pcb : PcbPointer → Option Pcb
  ready : List PcbPointer
  exec : List (Option PcbPointer)
  exit : List PcbPointer
  execSemaphoresInit : Nat → Nat
  execSemaphores : Nat → Nat
  pcbsToReady : List (Option PcbPointer)
  stsSemaphore : Nat
  quantum : Int
  shortTerm : ShortTermCall
  planifier : List PlanifierCall
  started : Nat → Option PcbPointer

namespace ExecSlots

/-- After `setup_scheduler_queues` and the start of the short term scheduler. -/
def setup (multiprocessing : Nat) (quantum : Int) : ExecSlots where
  pcb _ := none
  ready := []
  exec := List.replicate multiprocessing none
  exit := []
  execSemaphoresInit _ := 0
  execSemaphores _ := 0
  pcbsToReady := List.replicate multiprocessing none
  stsSemaphore := 0
  quantum := quantum
  shortTerm := .waiting
  planifier := List.replicate multiprocessing .waitingInit
  started _ := none

variable (s : ExecSlots)

/-- Fields of a process control block are written. -/
def modifyPcb (pointer : PcbPointer) (write : Pcb → Pcb) : ExecSlots :=
  { s with pcb := Function.update s.pcb pointer ((s.pcb pointer).map write) }

/-- The thread of a slot gets on. -/
def moveThread (k : Nat) (call : PlanifierCall) : ExecSlots :=
  { s with planifier := s.planifier.set k call }

/-! ## The short term scheduler -/

/-- The slot is empty: a process that may be moved there is chosen. -/
def chooseReady (i : Nat) : Option ExecSlots :=
  match s.ready with
  | [] => some { s with shortTerm := .size (i + 1) }
  | pointer :: _ => do
    let pcb ← s.pcb pointer
    if pcb.recentlyReady then some { s with shortTerm := .size (i + 1) }
    else some { s with shortTerm := .takeReady i pointer }

/-- The process has come to the slot. -/
def flagExec (i : Nat) (pointer : PcbPointer) : ExecSlots :=
  { s.modifyPcb pointer fun pcb =>
      { pcb with state := .exec, quantum := 0, recentlyExec := true } with
    stsSemaphore := semPostNeg s.stsSemaphore
    shortTerm := .size (i + 1) }

/-- A process that has come to the slot is started. -/
def startExec (i : Nat) (pointer : PcbPointer) : ExecSlots :=
  { s.modifyPcb pointer fun pcb => { pcb with processor := i } with
    execSemaphoresInit := Function.update s.execSemaphoresInit i (s.execSemaphoresInit i + 1)
    started := Function.update s.started i (some pointer)
    shortTerm := .posted i pointer }

/-- The slot has a process. -/
def checkExec (i : Nat) (pointer : PcbPointer) : Option ExecSlots := do
  let pcb ← s.pcb pointer
  if pcb.recentlyExec then some (s.startExec i pointer)
  else some { s with shortTerm := .size (i + 1) }

/-- After the post. -/
def countExec (i : Nat) (pointer : PcbPointer) : ExecSlots :=
  { s.modifyPcb pointer fun pcb =>
      { pcb with quantum := pcb.quantum + 1, recentlyExec := false } with
    shortTerm := .size (i + 1) }

/-- The process of an entry may go to a slot again. -/
def clearFlag (i : Nat) (pointer : PcbPointer) : ExecSlots :=
  { s.modifyPcb pointer fun pcb => { pcb with recentlyReady := false } with
    pcbsToReady := s.pcbsToReady.set i none
    stsSemaphore := semPostNeg s.stsSemaphore
    shortTerm := .entries (i + 1) }

/-- The body of the second loop. -/
def clearEntry (i : Nat) : Option ExecSlots :=
  match s.pcbsToReady[i]?.join with
  | none => some { s with shortTerm := .entries (i + 1) }
  | some pointer => do
    let pcb ← s.pcb pointer
    if pcb.recentlyReady then some (s.clearFlag i pointer)
    else some { s with shortTerm := .entries (i + 1) }

/-- `short_term_schedule`. -/
def shortTermStep : Option ExecSlots :=
  match s.shortTerm with
  | .waiting =>
    if s.stsSemaphore = 0 then none
    else some { s with stsSemaphore := s.stsSemaphore - 1, shortTerm := .size 0 }
  | .size i =>
    if i < s.exec.length then some { s with shortTerm := .get i }
    else some { s with shortTerm := .entries 0 }
  | .get i =>
    match s.exec[i]?.join with
    | none => some { s with shortTerm := .empty i }
    | some pointer => some { s with shortTerm := .found i pointer }
  | .empty i => s.chooseReady i
  | .takeReady i pointer => some { s with ready := s.ready.tail, shortTerm := .remove i pointer }
  | .remove i pointer => some { s with exec := s.exec.eraseIdx i, shortTerm := .insert i pointer }
  | .insert i pointer =>
    some { s with exec := s.exec.insertIdx i (some pointer), shortTerm := .flag i pointer }
  | .flag i pointer => some (s.flagExec i pointer)
  | .found i pointer => s.checkExec i pointer
  | .posted i pointer => some (s.countExec i pointer)
  | .entries i =>
    if i < s.pcbsToReady.length then s.clearEntry i else some { s with shortTerm := .waiting }

/-! ## The threads of the slots -/

/-- `post_exec_statement`. -/
def postExecStatement (k : Nat) (pointer : PcbPointer) (processor : Nat) (errors : Bool) :
    ExecSlots :=
  { (s.modifyPcb pointer fun pcb => Scheduler.afterStatement pcb errors).moveThread k
      .waitingExec with
    execSemaphores := Function.update s.execSemaphores processor (s.execSemaphores processor + 1) }

/-- The statement of a slot comes to its end, where `errors` says whether it has failed. -/
def endStatement (k : Nat) (errors : Bool) : Option ExecSlots :=
  match s.planifier[k]? with
  | some (.executing (some pointer)) => do
    let pcb ← s.pcb pointer
    let _ ← pcb.statements[pcb.programCounter]?
    some (s.postExecStatement k pointer pcb.processor errors)
  | _ => none

/-- The next statement is started. -/
def continueExec (k : Nat) (pointer : PcbPointer) : ExecSlots :=
  { (s.modifyPcb pointer fun pcb =>
      { pcb with processor := k, quantum := pcb.quantum + 1 }).moveThread k .waitingInit with
    execSemaphoresInit := Function.update s.execSemaphoresInit k (s.execSemaphoresInit k + 1) }

/-- The process is in `ready` again. -/
def flagReady (k : Nat) (pointer : PcbPointer) : ExecSlots :=
  { (s.modifyPcb pointer fun pcb =>
      { pcb with state := .ready, recentlyReady := true }).moveThread k (.insert pointer false) with
    pcbsToReady := s.pcbsToReady.set k (some pointer) }

/-- The process is in `exit`, and both schedulers are to go on. -/
def flagExit (k : Nat) (pointer : PcbPointer) : ExecSlots :=
  { (s.modifyPcb pointer fun pcb => { pcb with state := .exit }).moveThread k .waitingInit with
    pcbsToReady := s.pcbsToReady.set k none
    stsSemaphore := semPostNeg s.stsSemaphore }

/-- What is next for the process. -/
def decideNext (k : Nat) (pointer : PcbPointer) : Option ExecSlots := do
  let pcb ← s.pcb pointer
  if pcb.statements.length ≤ pcb.programCounter then some (s.moveThread k (.remove pointer true))
  else if s.quantum ≤ pcb.quantum then some (s.moveThread k (.remove pointer false))
  else some (s.continueExec k pointer)

/-- `planifier_execute` and `exec_next_statement`. -/
def planifierStep (k : Nat) : Option ExecSlots := do
  let call ← s.planifier[k]?
  match call with
  | .waitingInit =>
    if s.execSemaphoresInit k = 0 then none
    else some { s.moveThread k .next with
      execSemaphoresInit := Function.update s.execSemaphoresInit k (s.execSemaphoresInit k - 1) }
  | .next => some (s.moveThread k (.executing s.exec[k]?.join))
  | .executing _ => none
  | .waitingExec =>
    if s.execSemaphores k = 0 then none
    else some { s.moveThread k .look with
      execSemaphores := Function.update s.execSemaphores k (s.execSemaphores k - 1) }
  | .look => some (s.moveThread k (.decide s.exec[k]?.join))
  | .decide none => none
  | .decide (some pointer) => s.decideNext k pointer
  | .remove pointer finished =>
    some { s.moveThread k (.add pointer finished) with exec := s.exec.eraseIdx k }
  | .add pointer true =>
    some { s.moveThread k (.insert pointer true) with exit := s.exit ++ [pointer] }
  | .add pointer false =>
    some { s.moveThread k (.replace pointer) with ready := s.ready ++ [pointer] }
  | .replace pointer => some (s.flagReady k pointer)
  | .insert pointer finished =>
    some { s.moveThread k (.done pointer finished) with exec := s.exec.insertIdx k none }
  | .done pointer true => some (s.flagExit k pointer)
  | .done _ false =>
    some { s.moveThread k .waitingInit with stsSemaphore := semPostNeg s.stsSemaphore }

/-! ## The long term scheduler -/

/-- A new process comes to `ready`. -/
def arrive (pointer : PcbPointer) (pcb : Pcb) : Option ExecSlots :=
  if s.pcb pointer = none then some
    { s with
      pcb := Function.update s.pcb pointer (some { pcb with state := .ready })
      ready := s.ready ++ [pointer]
      stsSemaphore := semPostNeg s.stsSemaphore }
  else none

end ExecSlots

/-- In the body of the first loop the short term scheduler has `g_inner_scheduler_semaphore`. -/
def ShortTermCall.hasInner : ShortTermCall → Bool
  | .waiting | .size _ | .entries _ => false
  | _ => true

/-- The first of `exit` is deleted. -/
def ExecSlots.deletePcb (s : ExecSlots) : Option ExecSlots :=
  match s.exit with
  | [] => none
  | pointer :: rest =>
    if s.shortTerm.hasInner then none
    else some { s with
      exit := rest
      pcbsToReady := s.pcbsToReady.replace (some pointer) none
      pcb := Function.update s.pcb pointer none }

/-- What can happen. -/
inductive SlotAction where
  | arrive (pointer : PcbPointer) (statements : List Statement) (quantum : Int) (processor : Nat)
  | deletePcb
  /-- The configuration is read anew. -/
  | configure (quantum : Int)
  | shortTerm
  | planifier (k : Nat)
  | endStatement (k : Nat) (errors : Bool)

def ExecSlots.step (s : ExecSlots) : SlotAction → Option ExecSlots
  | .arrive pointer statements quantum processor =>
    s.arrive pointer (getNewPcb statements quantum processor)
  | .deletePcb => s.deletePcb
  | .configure quantum => some { s with quantum := quantum }
  | .shortTerm => s.shortTermStep
  | .planifier k => s.planifierStep k
  | .endStatement k errors => s.endStatement k errors

/-! ## What is promised -/

/-- Between its two calls on `exec`. -/
def PlanifierCall.isOut : PlanifierCall → Bool
  | .add _ _ | .replace _ | .insert _ _ => true
  | _ => false

/-- Up to where `exec` has to be complete for the next call on it. -/
def PlanifierCall.reach (k : Nat) : PlanifierCall → Nat
  | .next | .look | .remove _ _ => k + 1
  | .insert _ _ => k
  | _ => 0

def ShortTermCall.isOut (j : Nat) : ShortTermCall → Bool
  | .insert i _ => i = j
  | _ => false

def ShortTermCall.reach : ShortTermCall → Nat
  | .get i | .remove i _ => i + 1
  | .insert i _ => i
  | _ => 0

/-- What was read of `exec`. -/
def PlanifierCall.read : PlanifierCall → Option (Option PcbPointer)
  | .executing read | .decide read => some read
  | _ => none

/-- A process that is in none of the lists. -/
def PlanifierCall.hand : PlanifierCall → Option PcbPointer
  | .add pointer _ => some pointer
  | _ => none

def ShortTermCall.hand : ShortTermCall → Option PcbPointer
  | .remove _ pointer | .insert _ pointer => some pointer
  | _ => none

namespace ExecSlots
variable (s : ExecSlots)

/-- A slot is removed and not added again. -/
def IsOut (j : Nat) : Prop :=
  (∃ call ∈ s.planifier[j]?, call.isOut = true) ∨ s.shortTerm.isOut j = true

/-- A call on `exec` is made while no slot in front of its own is out, nor, but for the
`list_add_in_index`, its own. -/
def Undisturbed : SlotAction → Prop
  | .shortTerm => ∀ j < s.shortTerm.reach, ¬ s.IsOut j
  | .planifier k => ∀ call ∈ s.planifier[k]?, ∀ j < call.reach k, ¬ s.IsOut j
  | _ => True

instance : DecidablePred s.IsOut := fun _ => inferInstanceAs (Decidable (_ ∨ _))

instance : DecidablePred s.Undisturbed
  | .shortTerm => inferInstanceAs (Decidable (∀ j < _, _))
  | .planifier _ => inferInstanceAs (Decidable (∀ call ∈ _, _))
  | .arrive _ _ _ _ | .deletePcb | .configure _ | .endStatement _ _ =>
    inferInstanceAs (Decidable True)

/-- What a thread reads in its slot is the process that was started on it. -/
def ReadsOwn : Prop :=
  ∀ k call read, s.planifier[k]? = some call → call.read = some read →
    ∃ pointer, read = some pointer ∧ s.started k = some pointer

/-- In how many places a process is. -/
def places (pointer : PcbPointer) : Nat :=
  s.ready.count pointer + s.exec.count (some pointer) + s.exit.count pointer
    + s.planifier.countP (fun call => call.hand = some pointer)
    + if s.shortTerm.hand = some pointer then 1 else 0

end ExecSlots

end Lissandra
