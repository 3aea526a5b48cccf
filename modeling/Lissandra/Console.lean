import Lissandra.Strings
import Lissandra.OperationTypes

/-! # The console

`generic_console.c`, and the functions of the kernel that read the lines of a script.  A line
is cut into tokens three times: to find the operation, to validate it, and to build the
input of its callback or statement.  Results are `Option`s where a token is read that may be
missing.
-/
namespace Lissandra

/-! ## Operations -/

/-- `operation_t`. -/
inductive Operation where
  | invalid
  | select
  | insert
  | create
  | describe
  | drop
  | journal
  | add
  | run
  | metrics
  deriving DecidableEq, Repr

/-- The number of an enumerator. -/
def Operation.toNat : Operation → Nat
  | .invalid => 0
  | .select => 1
  | .insert => 2
  | .create => 3
  | .describe => 4
  | .drop => 5
  | .journal => 6
  | .add => 7
  | .run => 8
  | .metrics => 9

/-- The keywords, in capitals. -/
def Operation.keyword : Operation → Bytes
  | .invalid => []
  | .select => [83, 69, 76, 69, 67, 84]
  | .insert => [73, 78, 83, 69, 82, 84]
  | .create => [67, 82, 69, 65, 84, 69]
  | .describe => [68, 69, 83, 67, 82, 73, 66, 69]
  | .drop => [68, 82, 79, 80]
  | .journal => [74, 79, 85, 82, 78, 65, 76]
  | .add => [65, 68, 68]
  | .run => [82, 85, 78]
  | .metrics => [77, 69, 84, 82, 73, 67, 83]

/-- `"MEMORY"` and `"TO"`. -/
def memoryKeyword : Bytes := [77, 69, 77, 79, 82, 89]
def toKeyword : Bytes := [84, 79]

/-- `"SC"`, `"SHC"` and `"EC"`. -/
def Consistency.keyword : Consistency → Bytes
  | .strongConsistency => [83, 67]
  | .strongHashConsistency => [83, 72, 67]
  | .eventualConsistency => [69, 67]

/-- `get_operation`. -/
def getOperation (input : CString) : Operation :=
  match stringSplitIgnoreQuotes input with
  | [] => .invalid
  | first :: rest =>
    let is operation := stringEqualsIgnoreCase first (Operation.keyword operation)
    if is .select then .select
    else if is .insert then .insert
    else if is .create then .create
    else if is .describe then .describe
    else if is .drop then .drop
    else if is .journal then .journal
    else if is .add ∧ rest.head?.any fun second =>
      stringEqualsIgnoreCase second memoryKeyword then .add
    else if is .run then .run
    else if is .metrics then .metrics
    else .invalid

/-- `operation_allowed`. -/
def operationAllowed (operation : Operation) (process : Process) : Bool :=
  match process with
  | .filesystem => operation.toNat ≤ Operation.drop.toNat
  | .memory => operation.toNat ≤ Operation.journal.toNat
  | process => process = .kernel

/-! ## Validation -/

/-- A token that `strtol` reads to its end. -/
def isNumber (token : Bytes) : Bool := strtolEnd token = []

/-- The check of a key, against `UINT16_MAX`. -/
def validKey (token : Bytes) : Bool :=
  isNumber token ∧ 0 ≤ (strtoll token).toInt ∧ (strtoll token).toInt ≤ 65535

/-- The check of a timestamp, a number of partitions, a time or a memory number. -/
def validNumber (token : Bytes) : Bool := isNumber token ∧ 0 ≤ (strtoll token).toInt

/-- The check of a criterion. -/
def validConsistency (token : Bytes) : Bool :=
  stringEqualsIgnoreCase token Consistency.strongConsistency.keyword ||
    stringEqualsIgnoreCase token Consistency.strongHashConsistency.keyword ||
    stringEqualsIgnoreCase token Consistency.eventualConsistency.keyword

def validateSelect : List Bytes → Bool
  | [_, _, key] => validKey key
  | _ => false

def validateInsert : List Bytes → Bool
  | [_, _, key, _] => validKey key
  | [_, _, key, _, timestamp] => validKey key && validNumber timestamp
  | _ => false

def validateCreate : List Bytes → Bool
  | [_, _, consistency, partitions, compaction] =>
    validConsistency consistency && validNumber partitions && validNumber compaction
  | _ => false

def validateDescribe (tokens : List Bytes) : Bool := tokens.length = 1 || tokens.length = 2

def validateDrop (tokens : List Bytes) : Bool := tokens.length = 2

def validateJournal (tokens : List Bytes) : Bool := tokens.length = 1

def validateAdd : List Bytes → Bool
  | [_, _, number, third, consistency] =>
    validNumber number && stringEqualsIgnoreCase third toKeyword && validConsistency consistency
  | _ => false

def validateRun (tokens : List Bytes) : Bool := tokens.length = 2

def validateMetrics (tokens : List Bytes) : Bool := tokens.length = 1

/-- `validate_input`. -/
def validateInput (operation : Operation) (input : CString) : Bool :=
  let tokens := stringSplitIgnoreQuotes input
  match operation with
  | .select => validateSelect tokens
  | .insert => validateInsert tokens
  | .create => validateCreate tokens
  | .describe => validateDescribe tokens
  | .drop => validateDrop tokens
  | .journal => validateJournal tokens
  | .add => validateAdd tokens
  | .run => validateRun tokens
  | .metrics => validateMetrics tokens
  | .invalid => false

/-! ## Inputs -/

/-- The criterion of a token that was validated. -/
def consistencyOf (token : Bytes) : Consistency :=
  if stringEqualsIgnoreCase token Consistency.strongConsistency.keyword then .strongConsistency
  else if stringEqualsIgnoreCase token Consistency.strongHashConsistency.keyword then
    .strongHashConsistency
  else .eventualConsistency

/-- `add_input_t`. -/
structure AddInput where
  memoryNumber : Int32
  consistency : Consistency
  deriving DecidableEq

/-- `run_input_t`. -/
structure RunInput where
  path : CString
  deriving DecidableEq

/-- The `select_input_t` of some tokens. -/
def selectInput (tokens : List Bytes) : Option SelectInput := do
  let tableName ← tokens[1]?
  let key ← tokens[2]?
  some ⟨.ofBytes tableName, stringToUint16 key⟩

/-- The `insert_input_t` of some tokens. -/
def insertInput (tokens : List Bytes) : Option InsertInput := do
  let tableName ← tokens[1]?
  let key ← tokens[2]?
  let value ← tokens[3]?
  let timestamp ← if tokens.length = 5 then tokens[4]?.map stringToLongLong else some (-1)
  some ⟨.ofBytes tableName, stringToUint16 key, .ofBytes value, timestamp⟩

/-- The `create_input_t` of some tokens. -/
def createInput (tokens : List Bytes) : Option CreateInput := do
  let tableName ← tokens[1]?
  let consistency ← tokens[2]?
  let partitions ← tokens[3]?
  let compaction ← tokens[4]?
  some ⟨.ofBytes tableName, consistencyOf consistency, stringToInt partitions,
    stringToLong compaction⟩

/-- The `describe_input_t` of some tokens. -/
def describeInput (tokens : List Bytes) : Option DescribeInput :=
  if tokens.length = 2 then tokens[1]?.map fun tableName => ⟨some (.ofBytes tableName)⟩
  else some ⟨none⟩

/-- The `drop_input_t` of some tokens. -/
def dropInput (tokens : List Bytes) : Option DropInput :=
  tokens[1]?.map fun tableName => ⟨.ofBytes tableName⟩

/-- The `add_input_t` of some tokens. -/
def addInput (tokens : List Bytes) : Option AddInput := do
  let number ← tokens[2]?
  let consistency ← tokens[4]?
  some ⟨stringToInt number, consistencyOf consistency⟩

/-- The `run_input_t` of some tokens. -/
def runInput (tokens : List Bytes) : Option RunInput :=
  tokens[1]?.map fun path => ⟨.ofBytes path⟩

/-- Which of the `callbacks_t` is called, and its input. -/
inductive ConsoleCall where
  | select (input : SelectInput)
  | insert (input : InsertInput)
  | create (input : CreateInput)
  | describe (input : DescribeInput)
  | drop (input : DropInput)
  | journal
  | add (input : AddInput)
  | run (input : RunInput)
  | metrics
  deriving DecidableEq

/-- `process_input`. -/
def processInput (operation : Operation) (userInput : CString) : Option ConsoleCall :=
  let tokens := stringSplitIgnoreQuotes userInput
  match operation with
  | .select => (selectInput tokens).map .select
  | .insert => (insertInput tokens).map .insert
  | .create => (createInput tokens).map .create
  | .describe => (describeInput tokens).map .describe
  | .drop => (dropInput tokens).map .drop
  | .journal => some .journal
  | .add => (addInput tokens).map .add
  | .run => (runInput tokens).map .run
  | .metrics => some .metrics
  | .invalid => none

/-- `process_command`: the call, if the command is valid. -/
def processCommand (command : CString) (process : Process) : Option (Option ConsoleCall) :=
  let operation := getOperation command
  if operation = .invalid ∨ operationAllowed operation process = false ∨
      validateInput operation command = false then some none
  else (processInput operation command).map some

/-! ## Scripts -/

/-- `statement_t`, without its semaphore and its memory. -/
structure Statement where
  operation : Operation
  selectInput : Option SelectInput
  insertInput : Option InsertInput
  createInput : Option CreateInput
  describeInput : Option DescribeInput
  dropInput : Option DropInput
  deriving DecidableEq

/-- `generate_statement`, with its operation. -/
def generateStatement (operation : Operation) : Statement :=
  ⟨operation, none, none, none, none, none⟩

/-- `add_statement`, where `onInnerRunRequest` adds the statements of another script. -/
def addStatement (onInnerRunRequest : List Statement → RunInput → Option (List Statement))
    (statements : List Statement) (operation : Operation) (command : CString) :
    Option (List Statement) :=
  let tokens := stringSplitIgnoreQuotes command
  let statement := generateStatement operation
  match operation with
  | .select =>
    (selectInput tokens).map fun input =>
      statements ++ [{ statement with selectInput := some input }]
  | .insert =>
    (insertInput tokens).map fun input =>
      statements ++ [{ statement with insertInput := some input }]
  | .create =>
    (createInput tokens).map fun input =>
      statements ++ [{ statement with createInput := some input }]
  | .describe =>
    (describeInput tokens).map fun input =>
      statements ++ [{ statement with describeInput := some input }]
  | .drop =>
    (dropInput tokens).map fun input => statements ++ [{ statement with dropInput := some input }]
  | .run => runInput tokens >>= onInnerRunRequest statements
  | _ => some (statements ++ [statement])

/-- The loop of `on_inner_run_request`, and whether the script is valid. -/
def addLines (add : List Statement → Operation → CString → Option (List Statement))
    (statements : List Statement) : List CString → Option (Bool × List Statement)
  | [] => some (true, statements)
  | command :: rest =>
    let operation := getOperation command
    if operation = .invalid ∨ operationAllowed operation .kernel = false ∨
        validateInput operation command = false then some (false, statements)
    else if operation ≠ .run ∧ Operation.journal.toNat < operation.toNat then
      some (false, statements)
    else do
      let statements ← add statements operation command
      addLines add statements rest

/-- `on_inner_run_request`, where `files` are the lines of the scripts.  Scripts that run each
other deeper than `depth` exhaust the stack. -/
def onInnerRunRequest (files : CString → Option (List CString)) :
    (depth : Nat) → List Statement → RunInput → Option (Bool × List Statement)
  | 0, _, _ => none
  | depth + 1, statements, input =>
    match files input.path with
    | none => some (false, statements)
    | some [] => some (false, statements)
    | some lines =>
      addLines (addStatement fun statements input =>
        (onInnerRunRequest files depth statements input).map Prod.snd) statements lines

end Lissandra
