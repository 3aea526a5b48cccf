import Lissandra.ConsoleCommands
import Lissandra.CreatedTables

/-! # Numbers as they are typed

A number in a line is read twice.  The validators read it as a `long` and look at its sign, and for
a key at its range; then it is read again and converted to the type of its field.  `strtol` stops
at the ends of a `long`, and the conversion to an `int` keeps 32 bits, so a number is what was
typed exactly if its field can hold it (`typed_iff`).  Keys are checked for that.
-/
namespace Lissandra

/-! ## Fields -/

/-- The numbers in the inputs of the operations. -/
inductive NumericField where
  | key
  | timestamp
  | partitions
  | compactionTime
  | memoryNumber
  deriving DecidableEq

/-- `SELECT [NOMBRE TABLA] [KEY]`, and so on. -/
def NumericField.position : NumericField → Operation → Option Nat
  | .key, .select => some 2
  | .key, .insert => some 2
  | .timestamp, .insert => some 4
  | .partitions, .create => some 3
  | .compactionTime, .create => some 4
  | .memoryNumber, .add => some 2
  | _, _ => none

/-- The greatest number of a `uint16_t`, a `long long`, an `int`, a `long` and an `int`. -/
def NumericField.limit : NumericField → Int
  | .key => 65535
  | .timestamp => 9223372036854775807
  | .partitions => 2147483647
  | .compactionTime => 9223372036854775807
  | .memoryNumber => 2147483647

/-- The number that is written in a line. -/
def typedNumber (line : CString) (field : NumericField) : Option Int := do
  let position ← field.position (getOperation line)
  let token ← (stringSplitIgnoreQuotes line)[position]?
  some (parseInt token)

/-- The number that a callback is given. -/
def ConsoleCall.number : ConsoleCall → NumericField → Option Int
  | .select input, .key => some input.key.toNat
  | .insert input, .key => some input.key.toNat
  | .insert input, .timestamp => some input.timestamp.toInt
  | .create input, .partitions => some input.partitions.toInt
  | .create input, .compactionTime => some input.compactionTime.toInt
  | .add input, .memoryNumber => some input.memoryNumber.toInt
  | _, _ => none

/-- The number that the statement of a script has. -/
def Statement.number (statement : Statement) : NumericField → Option Int
  | .key => (statement.selectInput.map fun input => (input.key.toNat : Int)).or
      (statement.insertInput.map fun input => (input.key.toNat : Int))
  | .timestamp => statement.insertInput.map fun input => input.timestamp.toInt
  | .partitions => statement.createInput.map fun input => input.partitions.toInt
  | .compactionTime => statement.createInput.map fun input => input.compactionTime.toInt
  | .memoryNumber => none

/-- Every number that is written in the line is the one of its field. -/
def AsTyped (line : CString) (number : NumericField → Option Int) : Prop :=
  ∀ field typed, typedNumber line field = some typed → number field = some typed

/-- Every number that is written in the line can be held by its field. -/
def FieldsHold (line : CString) : Prop :=
  ∀ field typed, typedNumber line field = some typed → typed ≤ field.limit

/-- The checks of `on_inner_run_request`, for a line that is not a `RUN`. -/
def ScriptLine (line : CString) : Prop :=
  getOperation line ≠ .invalid ∧ operationAllowed (getOperation line) .kernel = true ∧
    validateInput (getOperation line) line = true ∧ getOperation line ≠ .run ∧
    (getOperation line).toNat ≤ Operation.journal.toNat

/-! ## Conversions -/

section Conversions
variable {text : Bytes}

/-- `strtoll` stops at the ends of a `long long`. -/
theorem strtoll_toInt (text : Bytes) : (strtoll text).toInt
    = max (min (parseInt text) 9223372036854775807) (-9223372036854775808) := by
  have hmin : Int64.minValue.toInt = -9223372036854775808 := by decide
  have hmax : Int64.maxValue.toInt = 9223372036854775807 := by decide
  unfold strtoll
  by_cases hlow : Int64.minValue.toInt ≤ parseInt text
  · by_cases hhigh : parseInt text ≤ Int64.maxValue.toInt
    · rw [Int64.toInt_ofIntClamp hlow hhigh]
      omega
    · rw [Int64.ofIntClamp, dif_pos hlow, dif_neg hhigh]
      omega
  · rw [Int64.ofIntClamp, dif_neg hlow]
    omega

/-- The checks see the sign that was typed. -/
theorem parseInt_nonneg_of_strtoll (h : 0 ≤ (strtoll text).toInt) : 0 ≤ parseInt text := by
  rw [strtoll_toInt] at h
  omega

theorem strtoll_eq_iff (h : 0 ≤ parseInt text) :
    (strtoll text).toInt = parseInt text ↔ parseInt text ≤ 9223372036854775807 := by
  rw [strtoll_toInt]
  omega

theorem stringToInt_eq_iff (h : 0 ≤ parseInt text) :
    (stringToInt text).toInt = parseInt text ↔ parseInt text ≤ 2147483647 := by
  constructor
  · intro heq
    have hlt := (stringToInt text).toInt_lt
    omega
  · intro hle
    exact stringToInt_of_fits (by omega) hle

/-- A key that was validated is the one that was typed. -/
theorem stringToUint16_of_valid (h : validKey text = true) :
    ((stringToUint16 text).toNat : Int) = parseInt text ∧ parseInt text ≤ 65535 := by
  unfold validKey at h
  rw [decide_eq_true_eq] at h
  obtain ⟨-, hnonneg, hle⟩ := h
  have hvalue := strtoll_toInt text
  have hsame : (strtoll text).toInt = parseInt text := by omega
  refine ⟨?_, by omega⟩
  have hlong : 0 ≤ strtoll text := by
    rw [Int64.le_iff_toInt_le]
    exact hnonneg
  unfold stringToUint16
  rw [UInt64.toNat_toUInt16, Int64.toNat_toUInt64_of_le hlong, Int64.toNatClampNeg]
  omega

/-- A number whose sign was checked. -/
theorem parseInt_nonneg_of_valid (h : validNumber text = true) : 0 ≤ parseInt text := by
  unfold validNumber at h
  rw [decide_eq_true_eq] at h
  exact parseInt_nonneg_of_strtoll h.2

/-- How the number of a field is checked. -/
def NumericField.valid : NumericField → Bytes → Bool
  | .key => validKey
  | _ => validNumber

/-- How it is read again. -/
def NumericField.read : NumericField → Bytes → Int
  | .key, token => (stringToUint16 token).toNat
  | .timestamp, token => (stringToLongLong token).toInt
  | .partitions, token => (stringToInt token).toInt
  | .compactionTime, token => (stringToLong token).toInt
  | .memoryNumber, token => (stringToInt token).toInt

/-- **A number that was checked** is read as it was typed exactly if its field can hold it. -/
theorem read_eq_iff {field : NumericField} (h : field.valid text = true) :
    field.read text = parseInt text ↔ parseInt text ≤ field.limit := by
  cases field with
  | key =>
    obtain ⟨hsame, hle⟩ := stringToUint16_of_valid h
    exact iff_of_true hsame hle
  | timestamp => exact strtoll_eq_iff (parseInt_nonneg_of_valid h)
  | partitions => exact stringToInt_eq_iff (parseInt_nonneg_of_valid h)
  | compactionTime => exact strtoll_eq_iff (parseInt_nonneg_of_valid h)
  | memoryNumber => exact stringToInt_eq_iff (parseInt_nonneg_of_valid h)

end Conversions

/-! ## Lines -/

section Lines
variable {line : CString} {call : ConsoleCall} {field : NumericField} {typed : Int}

/-- The callback is given what is read from the token that was checked. -/
theorem number_eq_read {operation : Operation} {position : Nat} {token : Bytes}
    (hvalid : validateInput operation line = true) (hcall : processInput operation line = some call)
    (hposition : field.position operation = some position)
    (htoken : (stringSplitIgnoreQuotes line)[position]? = some token) :
    field.valid token = true ∧ call.number field = some (field.read token) := by
  unfold validateInput at hvalid
  unfold processInput at hcall
  generalize stringSplitIgnoreQuotes line = tokens at hvalid hcall htoken
  cases operation with
  | select =>
    match tokens, hvalid with
    | [_, _, key], hkey =>
      obtain rfl := Option.some.inj hcall
      cases field with
      | key =>
        obtain rfl := Option.some.inj hposition
        obtain rfl := Option.some.inj htoken
        exact ⟨hkey, rfl⟩
      | _ => cases hposition
  | insert =>
    cases field with
    | key =>
      obtain rfl := Option.some.inj hposition
      match tokens, hvalid with
      | [_, _, key, _], hkey =>
        obtain rfl := Option.some.inj hcall
        obtain rfl := Option.some.inj htoken
        exact ⟨hkey, rfl⟩
      | [_, _, key, _, timestamp], hboth =>
        obtain rfl := Option.some.inj hcall
        obtain rfl := Option.some.inj htoken
        exact ⟨Bool.and_elim_left hboth, rfl⟩
    | timestamp =>
      obtain rfl := Option.some.inj hposition
      match tokens, hvalid with
      | [_, _, key, _], hkey => cases htoken
      | [_, _, key, _, timestamp], hboth =>
        obtain rfl := Option.some.inj hcall
        obtain rfl := Option.some.inj htoken
        exact ⟨Bool.and_elim_right hboth, rfl⟩
    | _ => cases hposition
  | create =>
    match tokens, hvalid with
    | [_, _, consistency, partitions, compaction], hall =>
      obtain rfl := Option.some.inj hcall
      have hboth := Bool.and_elim_left hall
      cases field with
      | partitions =>
        obtain rfl := Option.some.inj hposition
        obtain rfl := Option.some.inj htoken
        exact ⟨Bool.and_elim_right hboth, rfl⟩
      | compactionTime =>
        obtain rfl := Option.some.inj hposition
        obtain rfl := Option.some.inj htoken
        exact ⟨Bool.and_elim_right hall, rfl⟩
      | _ => cases hposition
  | add =>
    match tokens, hvalid with
    | [_, _, number, third, consistency], hall =>
      obtain rfl := Option.some.inj hcall
      have hboth := Bool.and_elim_left hall
      cases field with
      | memoryNumber =>
        obtain rfl := Option.some.inj hposition
        obtain rfl := Option.some.inj htoken
        exact ⟨Bool.and_elim_left hboth, rfl⟩
      | _ => cases hposition
  | _ => cases field <;> cases hposition

/-- **One field** of a line that was validated. -/
theorem number_eq_iff (hvalid : validateInput (getOperation line) line = true)
    (hcall : processInput (getOperation line) line = some call)
    (htyped : typedNumber line field = some typed) :
    call.number field = some typed ↔ typed ≤ field.limit := by
  obtain ⟨position, hposition, htyped⟩ := Option.bind_eq_some_iff.mp htyped
  obtain ⟨token, htoken, htyped⟩ := Option.bind_eq_some_iff.mp htyped
  obtain rfl := Option.some.inj htyped
  obtain ⟨hchecked, hread⟩ := number_eq_read hvalid hcall hposition htoken
  rw [hread, Option.some_inj]
  exact read_eq_iff hchecked

/-- The statement of a script has the numbers of the call. -/
theorem number_statement (hscript : getOperation line ∉ [Operation.add, .metrics, .run])
    (hcall : processInput (getOperation line) line = some call)
    (htyped : typedNumber line field = some typed) :
    (call.statement (getOperation line)).number field = call.number field := by
  obtain ⟨position, hposition, -⟩ := Option.bind_eq_some_iff.mp htyped
  unfold processInput at hcall
  generalize getOperation line = operation at hscript hcall hposition
  cases operation with
  | select =>
    obtain ⟨input, -, rfl⟩ := Option.map_eq_some_iff.mp hcall
    cases field with
    | key => rfl
    | _ => cases hposition
  | insert =>
    obtain ⟨input, -, rfl⟩ := Option.map_eq_some_iff.mp hcall
    cases field with
    | key => rfl
    | timestamp => rfl
    | _ => cases hposition
  | create =>
    obtain ⟨input, -, rfl⟩ := Option.map_eq_some_iff.mp hcall
    cases field with
    | partitions => rfl
    | compactionTime => rfl
    | _ => cases hposition
  | add => exact absurd (by decide) hscript
  | _ => cases field <;> cases hposition

/-- A line that was validated has the tokens of its input. -/
theorem exists_processInput {operation : Operation} (hvalid : validateInput operation line = true) :
    ∃ call, processInput operation line = some call := by
  unfold validateInput at hvalid
  unfold processInput
  generalize stringSplitIgnoreQuotes line = tokens at hvalid ⊢
  cases operation with
  | invalid => cases hvalid
  | select =>
    match tokens, hvalid with
    | [_, _, _], _ => exact ⟨_, rfl⟩
  | insert =>
    match tokens, hvalid with
    | [_, _, _, _], _ => exact ⟨_, rfl⟩
    | [_, _, _, _, _], _ => exact ⟨_, rfl⟩
  | create =>
    match tokens, hvalid with
    | [_, _, _, _, _], _ => exact ⟨_, rfl⟩
  | describe =>
    match tokens, hvalid with
    | [_], _ => exact ⟨_, rfl⟩
    | [_, _], _ => exact ⟨_, rfl⟩
  | drop =>
    match tokens, hvalid with
    | [_, _], _ => exact ⟨_, rfl⟩
  | journal => exact ⟨_, rfl⟩
  | add =>
    match tokens, hvalid with
    | [_, _, _, _, _], _ => exact ⟨_, rfl⟩
  | run =>
    match tokens, hvalid with
    | [_, _], _ => exact ⟨_, rfl⟩
  | metrics => exact ⟨_, rfl⟩

theorem ScriptLine.not_mem (h : ScriptLine line) :
    getOperation line ∉ [Operation.add, .metrics, .run] := by
  obtain ⟨-, -, -, hrun, hle⟩ := h
  revert hrun hle
  cases getOperation line <;> decide

/-- **When numbers are taken as they are typed**: in a line that `process_command` accepts, and in
one that the script loader accepts, exactly if their fields can hold them. -/
theorem typed_iff (line : CString) :
    (∀ process call, processCommand line process = some (some call) →
      (AsTyped line call.number ↔ FieldsHold line)) ∧
    (ScriptLine line → ∀ onInnerRunRequest statements, ∃ statement,
      addStatement onInnerRunRequest statements (getOperation line) line
          = some (statements ++ [statement]) ∧
        (AsTyped line statement.number ↔ FieldsHold line)) := by
  refine ⟨fun process call hcommand => ?_, fun hscript onInnerRunRequest statements => ?_⟩
  · unfold processCommand at hcommand
    dsimp only at hcommand
    split at hcommand
    · cases hcommand
    · rename_i haccepted
      obtain ⟨other, hcall, heq⟩ := Option.map_eq_some_iff.mp hcommand
      obtain rfl := Option.some.inj heq
      have hvalid : validateInput (getOperation line) line = true := by
        by_contra hinvalid
        exact haccepted (.inr (.inr (by simpa using hinvalid)))
      exact forall₃_congr fun field typed htyped => number_eq_iff hvalid hcall htyped
  · have hvalid := hscript.2.2.1
    obtain ⟨call, hcall⟩ := exists_processInput hvalid
    refine ⟨call.statement (getOperation line), ?_, ?_⟩
    · rw [addStatement_eq_processInput hscript.not_mem hscript.1, hcall]
      rfl
    · refine forall₃_congr fun field typed htyped => ?_
      rw [number_statement hscript.not_mem hcall htyped]
      exact number_eq_iff hvalid hcall htyped

/-- `CREATE T SC 4294967297 1000` is accepted, and makes a table of one partition. -/
theorem not_typed :
    let line := CString.ofBytes [67, 82, 69, 65, 84, 69, 32, 84, 32, 83, 67, 32, 52, 50, 57, 52, 57,
      54, 55, 50, 57, 55, 32, 49, 48, 48, 48]
    processCommand line .kernel =
        some (some (.create ⟨.ofBytes [84], .strongConsistency, 1, 1000⟩)) ∧
      typedNumber line .partitions = some 4294967297 ∧
      ¬ AsTyped line (ConsoleCall.create ⟨.ofBytes [84], .strongConsistency, 1, 1000⟩).number := by
  refine ⟨by decide +kernel, by decide +kernel, fun htyped => ?_⟩
  have hpartitions := htyped .partitions 4294967297 (by decide +kernel)
  exact absurd hpartitions (by decide)

end Lines

end Lissandra
