import Lissandra.HashedMemories
import Lissandra.ScriptOrder

/-! # How statements come to their end

A statement comes to its end in `exec_remote`, before a request, or in the callback of its
request, which decides on what came back whether `pcb->errors` is set.  All callbacks set it where
they log that the statement has failed, but for one: an INSERT that is answered with -1 has failed,
and the process goes on (`StatementEnd.errors`, `StatementEnd.failed`).  And the callback of a
`JOURNAL` can be called a second time, by another answer that is counted last: the program counter
is raised again, past a statement that nobody executes.

In runs without these two every process executes its script in order, a quantum at a time
(`scripts_in_turns`).
-/
namespace Lissandra

/-! ## Outcomes -/

/-- What brings a statement to its end: it was not sent, or the call of its callback with what
came back.  `none` is a request that failed; of a record this is its timestamp, and of the list of
a DESCRIBE whether there is one. -/
inductive StatementEnd where
  | notSent
  | onSelect (timestamp : Option Int64)
  | onInsert (status : Option Int32)
  | onCreate (status : Option Int32)
  | onDescribe (received : Bool)
  | onDrop (status : Option Int32)
  | onJournal (status : Int32)
  deriving DecidableEq

namespace StatementEnd

/-- It is one of the ends of a statement. -/
def IsOf (statement : Statement) : StatementEnd → Prop
  | .notSent => statement.operation ≠ .journal
  | .onSelect _ => statement.operation = .select
  | .onInsert _ => statement.operation = .insert
  | .onCreate _ => statement.operation = .create
  | .onDescribe _ => statement.operation = .describe
  | .onDrop _ => statement.operation = .drop
  | .onJournal _ => statement.operation = .journal

instance (statement : Statement) : DecidablePred (IsOf statement)
  | .notSent => inferInstanceAs (Decidable (statement.operation ≠ _))
  | .onSelect _ | .onInsert _ | .onCreate _ | .onDescribe _ | .onDrop _ | .onJournal _ =>
    inferInstanceAs (Decidable (statement.operation = _))

/-- `pcb->errors` is set. -/
def errors : StatementEnd → Bool
  | .notSent => true
  | .onSelect none => true
  | .onSelect (some timestamp) => timestamp = -4 ∨ timestamp = -3 ∨ timestamp = -2
  | .onInsert none => true
  | .onInsert (some status) => status = -4
  | .onCreate none => true
  | .onCreate (some status) => status = -3 ∨ status = -2 ∨ status = -1
  | .onDescribe received => !received
  | .onDrop none => true
  | .onDrop (some status) => status = -2 ∨ status = -1
  | .onJournal status => status = -3 ∨ status = -1

/-- The log says that the statement has failed. -/
def failed : StatementEnd → Bool
  | .onInsert (some status) => status = -4 ∨ status = -1
  | other => other.errors

/-- A value that is too long for the memory of an INSERT. -/
def valueTooLong : StatementEnd := .onInsert (some (-1))

theorem failed_eq_errors {statementEnd : StatementEnd} (h : statementEnd ≠ valueTooLong) :
    statementEnd.failed = statementEnd.errors := by
  cases statementEnd with
  | onInsert status =>
    cases status with
    | none => rfl
    | some status =>
      have hne : status ≠ -1 := fun heq => h (heq ▸ rfl)
      simp [failed, errors, hne]
  | _ => rfl

/-- The INSERTs and SELECTs that count as acknowledged and as answered in front of the memories
with hash consistency are those that have not failed. -/
theorem failed_onInsert (status : Int32) :
    Lissandra.onInsert (.int status.toInt) = !(StatementEnd.onInsert (some status)).failed := by
  have hfour : status.toInt = -4 ↔ status = -4 := Int32.toInt_inj (y := -4)
  have hone : status.toInt = -1 ↔ status = -1 := Int32.toInt_inj (y := -1)
  simp [Lissandra.onInsert, failed, hfour, hone]

theorem failed_onSelect (record : AnsweredRecord) :
    (Lissandra.onSelect (.record record)).isSome =
      !(StatementEnd.onSelect (some record.timestamp)).failed := by
  simp only [Lissandra.onSelect, failed, errors]
  split <;> simp_all

end StatementEnd

/-! ## Runs with outcomes -/

/-- What can happen. -/
inductive ScriptAction where
  | scheduler (action : SchedulerAction)
  /-- The statement of a slot comes to its end. -/
  | ends (i : Nat) (statementEnd : StatementEnd)
  /-- The callback of a `JOURNAL` of the process is called once more. -/
  | journalAgain (pointer : PcbPointer) (status : Int32)

namespace WatchedScheduler
variable (w : WatchedScheduler)

/-- The statement of a slot comes to its end. -/
def ends (i : Nat) (statementEnd : StatementEnd) : Option WatchedScheduler :=
  match w.scheduler.planifier i with
  | .executing pointer => do
    let pcb ← w.scheduler.pcb pointer
    let statement ← pcb.statements[pcb.programCounter]?
    if statementEnd.IsOf statement then
      let s' ← w.scheduler.endStatement i statementEnd.errors
      some ⟨s', w.record pointer ((w.life pointer).answer statementEnd.failed)⟩
    else none
  | _ => none

/-- `on_journal` for a process that has executed a `JOURNAL` which has come to its end already.
Behind the end of its script there is no statement whose semaphore could be posted. -/
def journalAgain (pointer : PcbPointer) (status : Int32) : Option WatchedScheduler :=
  if (w.life pointer).executed.any fun executed =>
      executed.statement.operation = .journal ∧ executed.failed.isSome then do
    let pcb ← w.scheduler.pcb pointer
    let _ ← pcb.statements[pcb.programCounter]?
    let s' ← w.scheduler.postExecStatement pointer (StatementEnd.onJournal status).errors
    some ⟨s', w.life⟩
  else none

/-- A step of the scheduler, in which statements come to their ends in their callbacks. -/
def scriptStep : ScriptAction → Option WatchedScheduler
  | .scheduler (.endStatement _ _) => none
  | .scheduler action => w.step action
  | .ends i statementEnd => w.ends i statementEnd
  | .journalAgain pointer status => w.journalAgain pointer status

end WatchedScheduler

/-- The configuration is not read anew. -/
def ScriptAction.KeepsQuantum : ScriptAction → Prop
  | .scheduler action => action.KeepsQuantum
  | .ends _ _ | .journalAgain _ _ => True

/-- No INSERT is answered with -1, and no callback is called again. -/
def ScriptAction.EndsOnce : ScriptAction → Prop
  | .scheduler _ => True
  | .ends _ statementEnd => statementEnd ≠ .valueTooLong
  | .journalAgain _ _ => False

instance : DecidablePred ScriptAction.KeepsQuantum
  | .scheduler action => inferInstanceAs (Decidable action.KeepsQuantum)
  | .ends _ _ | .journalAgain _ _ => .isTrue trivial

instance : DecidablePred ScriptAction.EndsOnce
  | .scheduler _ => .isTrue trivial
  | .ends _ statementEnd => inferInstanceAs (Decidable (statementEnd ≠ _))
  | .journalAgain _ _ => .isFalse id

/-- A run of the scheduler from its start, under one quantum, whose actions are of a kind. -/
abbrev TurnsRun (multiprocessing quantum : Nat) (kind : ScriptAction → Prop)
    (w : WatchedScheduler) : Prop :=
  Run WatchedScheduler.scriptStep (fun _ action _ => action.KeepsQuantum ∧ kind action)
    ⟨setupScheduler multiprocessing quantum, fun _ => .start⟩ w

/-! ## Scripts in turns -/

/-- A process left its slot each time after as many statements as the quantum, or as were left of
its script, or after fewer because one failed; the statements that were executed are the first ones
of its script, in their order and each once; none comes after one that failed; and at the end the
whole script was executed unless one failed. -/
structure InTurns (quantum : Nat) (pcb : Pcb) (life : Life) : Prop where
  fair : ∀ departure ∈ life.departures, departure.Fair quantum
  inOrder : life.executed.map Executed.statement <+: pcb.statements
  onlyLast : ∀ executed ∈ life.executed.dropLast, executed.failed = some false
  whole : pcb.state = .exit → (∃ executed ∈ life.executed, executed.failed = some true) ∨
    life.executed.map Executed.statement = pcb.statements

namespace WatchedScheduler
variable {w w' : WatchedScheduler} {action : ScriptAction} {multiprocessing quantum : Nat}

/-- An end that is no exception is that of a statement which has failed or not. -/
theorem step_of_ends {i : Nat} {statementEnd : StatementEnd}
    (hend : statementEnd ≠ .valueTooLong) (h : w.ends i statementEnd = some w') :
    w.step (.endStatement i statementEnd.errors) = some w' := by
  unfold ends at h
  split at h
  · rename_i pointer hpoint
    obtain ⟨pcb, hpcb, h⟩ := Option.bind_eq_some_iff.mp h
    obtain ⟨statement, -, h⟩ := Option.bind_eq_some_iff.mp h
    split at h
    · obtain ⟨s', hs', heq⟩ := Option.bind_eq_some_iff.mp h
      obtain rfl := Option.some.inj heq
      refine Option.map_eq_some_iff.mpr ⟨s', hs', ?_⟩
      rw [observe, hpoint, StatementEnd.failed_eq_errors hend]
    · cases h
  · cases h

/-- **One step** keeps the lives of the processes on their scripts. -/
theorem OnScript.scriptStep (h : w.OnScript multiprocessing quantum) (hquantum : 1 ≤ quantum)
    (hkeeps : action.KeepsQuantum) (hends : action.EndsOnce)
    (hstep : w.scriptStep action = some w') : w'.OnScript multiprocessing quantum := by
  cases action with
  | scheduler action =>
    cases action with
    | endStatement i errors => cases hstep
    | _ =>
      refine h.step hquantum ?_ hstep
      exact hkeeps
  | ends i statementEnd =>
    refine h.step hquantum ?_ (step_of_ends hends hstep)
    trivial
  | journalAgain pointer status => exact hends.elim

end WatchedScheduler

/-- **Quantum and program order.**  In every run in which no INSERT is answered with -1 and no
callback is called again every process executes its script in turns. -/
theorem scripts_in_turns {multiprocessing quantum : Nat} (hquantum : 1 ≤ quantum)
    {w : WatchedScheduler} (hrun : TurnsRun multiprocessing quantum ScriptAction.EndsOnce w)
    {pointer : PcbPointer} {pcb : Pcb} (hpcb : w.scheduler.pcb pointer = some pcb) :
    InTurns quantum pcb (w.life pointer) := by
  have hscript : w.OnScript multiprocessing quantum :=
    hrun.invariant (WatchedScheduler.onScript_setup multiprocessing quantum)
      fun _ _ _ hscript hstep hallowed =>
        hscript.scriptStep hquantum hallowed.1 hallowed.2 hstep
  have hlives := hscript.lives pointer pcb hpcb
  refine ⟨hlives.departures, hlives.isPrefix, hlives.only_last, fun hexit => ?_⟩
  rw [Pcb.stage, hexit] at hlives
  exact hlives.whole

/-- A script comes to the only slot. -/
def comesToSlot (statements : List Statement) : List ScriptAction :=
  let actions : List SchedulerAction :=
    [.arrive 7 statements 0 0, .longTerm, .longTerm] ++ List.replicate 7 .shortTerm
  actions.map .scheduler

/-- Two `JOURNAL`s under a quantum of one, the second of which fails. -/
def twoTurns : List ScriptAction :=
  comesToSlot [generateStatement .journal, generateStatement .journal]
    ++ [.scheduler (.startStatement 0), .ends 0 (.onJournal 0), .scheduler (.postStatement 0)]
    ++ List.replicate 10 (.scheduler .shortTerm)
    ++ [.scheduler (.startStatement 0), .ends 0 (.onJournal (-1)), .scheduler (.postStatement 0)]

/-- The scheduler after some actions of a kind. -/
def afterTurns (quantum : Nat) (kind : ScriptAction → Prop) [DecidablePred kind]
    (actions : List ScriptAction) : Option WatchedScheduler :=
  runSteps WatchedScheduler.scriptStep (fun _ action _ => action.KeepsQuantum ∧ kind action)
    ⟨setupScheduler 1 quantum, fun _ => .start⟩ actions

theorem scripts_in_turns_two :
    ∃ w pcb, TurnsRun 1 1 ScriptAction.EndsOnce w ∧ w.scheduler.exit = [7] ∧
      (w.life 7).departures.length = 2 ∧ InTurns 1 pcb (w.life 7) := by
  have hruns : ∃ w, afterTurns 1 ScriptAction.EndsOnce twoTurns = some w ∧
      (w.life 7).departures.length = 2 ∧ w.scheduler.exit = [7] ∧
      ∃ pcb, w.scheduler.pcb 7 = some pcb := ⟨_, rfl, rfl, rfl, _, rfl⟩
  obtain ⟨w, hw, hdepartures, hexit, pcb, hpcb⟩ := hruns
  have hrun : TurnsRun 1 1 ScriptAction.EndsOnce w := run_of_runSteps hw
  exact ⟨w, pcb, hrun, hexit, hdepartures, scripts_in_turns le_rfl hrun hpcb⟩

/-- Statements between two starts on the only slot. -/
def startsAgain (between : List ScriptAction) : List ScriptAction :=
  [.scheduler (.startStatement 0)] ++ between ++
    [.scheduler (.postStatement 0), .scheduler (.startStatement 0)]

/-- `JOURNAL`, `DESCRIBE` and `JOURNAL`, when the callback of the first one is called twice. -/
def describeSkipped : List ScriptAction :=
  comesToSlot [generateStatement .journal,
      { generateStatement .describe with describeInput := some ⟨none⟩ }, generateStatement .journal]
    ++ startsAgain [.ends 0 (.onJournal 0), .journalAgain 7 0]

/-- `INSERT T 1 "aaa"`, whose value is too long, and `JOURNAL`. -/
def failureIgnored : List ScriptAction :=
  comesToSlot [{ generateStatement .insert with
        insertInput := some ⟨.ofBytes [84], 1, .ofBytes [97, 97, 97], -1⟩ },
      generateStatement .journal]
    ++ startsAgain [.ends 0 .valueTooLong]

/-- The `DESCRIBE` is never executed and the statement behind it is; and a statement is executed
after one that failed. -/
theorem scripts_not_in_turns :
    (∃ w pcb, TurnsRun 1 3 (fun _ => True) w ∧ w.scheduler.pcb 7 = some pcb ∧
      ¬ (w.life 7).executed.map Executed.statement <+: pcb.statements) ∧
    ∃ w pcb, TurnsRun 1 3 (fun _ => True) w ∧ w.scheduler.pcb 7 = some pcb ∧
      ∃ executed ∈ (w.life 7).executed.dropLast, executed.failed = some true := by
  constructor
  · have hruns : ∃ w, afterTurns 3 (fun _ => True) describeSkipped = some w ∧
        ∃ pcb, w.scheduler.pcb 7 = some pcb ∧
          ¬ (w.life 7).executed.map Executed.statement <+: pcb.statements :=
      ⟨_, rfl, _, rfl, by decide⟩
    obtain ⟨w, hw, pcb, hpcb, hskipped⟩ := hruns
    exact ⟨w, pcb, run_of_runSteps hw, hpcb, hskipped⟩
  · have hruns : ∃ w, afterTurns 3 (fun _ => True) failureIgnored = some w ∧
        ∃ pcb, w.scheduler.pcb 7 = some pcb ∧
          ∃ executed ∈ (w.life 7).executed.dropLast, executed.failed = some true :=
      ⟨_, rfl, _, rfl, _, List.mem_cons_self, rfl⟩
    obtain ⟨w, hw, pcb, hpcb, hignored⟩ := hruns
    exact ⟨w, pcb, run_of_runSteps hw, hpcb, hignored⟩

end Lissandra
