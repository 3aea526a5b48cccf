import Lissandra.Console

/-! # The command language

A command, the lines it may be printed as, and what the program does with such a line.  The
console and the scripts read the tokens of a line on their own; for every command they come
to the same input, and it is the one that was printed (`parsed_as_written`).
-/
namespace Lissandra

/-! ## Commands -/

/-- A command.  Numbers have the types of the fields they come to. -/
inductive Command where
  | select (tableName : CString) (key : UInt16)
  | insert (tableName : CString) (key : UInt16) (value : CString) (timestamp : Option Int64)
  | create (tableName : CString) (consistency : Consistency) (partitions : Int32)
      (compactionTime : Int64)
  | describe (tableName : Option CString)
  | drop (tableName : CString)
  | journal
  | add (memoryNumber : Int32) (consistency : Consistency)
  | run (path : CString)
  | metrics
  deriving DecidableEq

def Command.operation : Command → Operation
  | .select .. => .select
  | .insert .. => .insert
  | .create .. => .create
  | .describe _ => .describe
  | .drop _ => .drop
  | .journal => .journal
  | .add .. => .add
  | .run _ => .run
  | .metrics => .metrics

/-- A word of a line. -/
def IsWord (word : CString) : Prop := word.bytes ≠ [] ∧ space ∉ word.bytes ∧ quote ∉ word.bytes

instance (word : CString) : Decidable (IsWord word) := inferInstanceAs (Decidable (_ ∧ _))

/-- Names and paths are words, values are between quotes, and numbers are not negative. -/
def Command.Plain : Command → Prop
  | .select tableName _ => IsWord tableName
  | .insert tableName _ value timestamp =>
    IsWord tableName ∧ (value.bytes ≠ [] ∧ quote ∉ value.bytes) ∧ ∀ t ∈ timestamp, 0 ≤ t.toInt
  | .create tableName _ partitions compactionTime =>
    IsWord tableName ∧ 0 ≤ partitions.toInt ∧ 0 ≤ compactionTime.toInt
  | .describe tableName => ∀ name ∈ tableName, IsWord name
  | .drop tableName => IsWord tableName
  | .add memoryNumber _ => 0 ≤ memoryNumber.toInt
  | .run path => IsWord path
  | _ => True

-- The timestamp is looked at, and not every `Int64`.
instance Command.decidablePlain : (command : Command) → Decidable command.Plain
  | .select tableName _ => inferInstanceAs (Decidable (IsWord tableName))
  | .insert tableName _ value timestamp =>
    have : Decidable (∀ t ∈ timestamp, 0 ≤ t.toInt) := Option.decidableForallMem timestamp
    inferInstanceAs (Decidable (IsWord tableName ∧ (value.bytes ≠ [] ∧ quote ∉ value.bytes) ∧
      ∀ t ∈ timestamp, 0 ≤ t.toInt))
  | .create tableName _ partitions compactionTime =>
    inferInstanceAs (Decidable (IsWord tableName ∧ 0 ≤ partitions.toInt ∧ 0 ≤ compactionTime.toInt))
  | .describe tableName => Option.decidableForallMem tableName
  | .drop tableName => inferInstanceAs (Decidable (IsWord tableName))
  | .journal => inferInstanceAs (Decidable True)
  | .add memoryNumber _ => inferInstanceAs (Decidable (0 ≤ memoryNumber.toInt))
  | .run path => inferInstanceAs (Decidable (IsWord path))
  | .metrics => inferInstanceAs (Decidable True)

/-- A keyword in any letter case. -/
def SpelledAs (word expected : Bytes) : Prop := toUppercase word = expected

/-- The tokens of a command. -/
inductive Command.Spelled : Command → List Token → Prop
  | select {word : Bytes} (keyword : SpelledAs word Operation.select.keyword) (tableName : CString)
      (key : UInt16) :
      Spelled (.select tableName key)
      [.word word, .word tableName.bytes, .word (printInt key.toNat)]
  | insert {word : Bytes} (keyword : SpelledAs word Operation.insert.keyword) (tableName : CString)
      (key : UInt16) (value : CString) :
      Spelled (.insert tableName key value none)
        [.word word, .word tableName.bytes, .word (printInt key.toNat), .quoted value.bytes]
  | insertAt {word : Bytes} (keyword : SpelledAs word Operation.insert.keyword)
      (tableName : CString) (key : UInt16) (value : CString) (timestamp : Int64) :
      Spelled (.insert tableName key value (some timestamp))
        [.word word, .word tableName.bytes, .word (printInt key.toNat), .quoted value.bytes,
          .word (printInt timestamp.toInt)]
  | create {word criterion : Bytes} (keyword : SpelledAs word Operation.create.keyword)
      {consistency : Consistency} (spelled : SpelledAs criterion consistency.keyword)
      (tableName : CString) (partitions : Int32) (compactionTime : Int64) :
      Spelled (.create tableName consistency partitions compactionTime)
        [.word word, .word tableName.bytes, .word criterion, .word (printInt partitions.toInt),
          .word (printInt compactionTime.toInt)]
  | describe {word : Bytes} (keyword : SpelledAs word Operation.describe.keyword) :
      Spelled (.describe none) [.word word]
  | describeTable {word : Bytes} (keyword : SpelledAs word Operation.describe.keyword)
      (tableName : CString) : Spelled (.describe (some tableName))
      [.word word, .word tableName.bytes]
  | drop {word : Bytes} (keyword : SpelledAs word Operation.drop.keyword) (tableName : CString) :
      Spelled (.drop tableName) [.word word, .word tableName.bytes]
  | journal {word : Bytes} (keyword : SpelledAs word Operation.journal.keyword) :
      Spelled .journal [.word word]
  | add {word second third criterion : Bytes} (keyword : SpelledAs word Operation.add.keyword)
      (memory : SpelledAs second memoryKeyword) (toWord : SpelledAs third toKeyword)
      {consistency : Consistency} (spelled : SpelledAs criterion consistency.keyword)
      (memoryNumber : Int32) :
      Spelled (.add memoryNumber consistency)
        [.word word, .word second, .word (printInt memoryNumber.toInt), .word third,
          .word criterion]
  | run {word : Bytes} (keyword : SpelledAs word Operation.run.keyword) (path : CString) :
      Spelled (.run path) [.word word, .word path.bytes]
  | metrics {word : Bytes} (keyword : SpelledAs word Operation.metrics.keyword) :
      Spelled .metrics [.word word]

/-- The callback of a command, and its input.  Without a timestamp the field is -1. -/
def Command.call : Command → ConsoleCall
  | .select tableName key => .select ⟨tableName, key⟩
  | .insert tableName key value timestamp => .insert ⟨tableName, key, value, timestamp.getD (-1)⟩
  | .create tableName consistency partitions compactionTime =>
    .create ⟨tableName, consistency, partitions, compactionTime⟩
  | .describe tableName => .describe ⟨tableName⟩
  | .drop tableName => .drop ⟨tableName⟩
  | .journal => .journal
  | .add memoryNumber consistency => .add ⟨memoryNumber, consistency⟩
  | .run path => .run ⟨path⟩
  | .metrics => .metrics

/-- The statement of a command with the same input. -/
def ConsoleCall.statement (operation : Operation) : ConsoleCall → Statement
  | .select input => { generateStatement operation with selectInput := some input }
  | .insert input => { generateStatement operation with insertInput := some input }
  | .create input => { generateStatement operation with createInput := some input }
  | .describe input => { generateStatement operation with describeInput := some input }
  | .drop input => { generateStatement operation with dropInput := some input }
  | _ => generateStatement operation

/-! ## Tokens of commands -/

section Tokens
variable {word expected : Bytes} {command : Command} {printed : List Token} {line : CString}

@[simp] theorem CString.ofBytes_bytes (s : CString) : CString.ofBytes s.bytes = s := by
  have hbytes : s.bytes.takeWhile (· ≠ 0) = s.bytes := by
    apply List.takeWhile_eq_self_iff.mpr
    intro b hb
    exact decide_eq_true fun h => s.noNul (h ▸ hb)
  cases s
  simp only [CString.ofBytes, hbytes]

/-- Letters are all that changes with the case. -/
theorem SpelledAs.plain (h : SpelledAs word expected) (hne : expected ≠ [])
    (hspace : space ∉ expected) (hquote : quote ∉ expected) : (Token.word word).Plain := by
  unfold SpelledAs at h
  refine ⟨?_, fun hmem => hspace ?_, fun hmem => hquote ?_⟩
  · rintro rfl
    exact hne h.symm
  · rw [← h]
    exact List.mem_map.mpr ⟨space, hmem, by decide⟩
  · rw [← h]
    exact List.mem_map.mpr ⟨quote, hmem, by decide⟩

theorem SpelledAs.operation {operation : Operation} (h : SpelledAs word operation.keyword)
    (hvalid : operation ≠ .invalid) : (Token.word word).Plain := by
  cases operation with
  | invalid => exact absurd rfl hvalid
  | _ => exact h.plain (by decide) (by decide) (by decide)

theorem SpelledAs.consistency {consistency : Consistency} (h : SpelledAs word consistency.keyword) :
    (Token.word word).Plain := by
  cases consistency <;> exact h.plain (by decide) (by decide) (by decide)

theorem IsWord.plain {name : CString} (h : IsWord name) : (Token.word name.bytes).Plain := h

theorem plain_printInt (i : Int) : (Token.word (printInt i)).Plain :=
  ⟨printInt_ne_nil i, not_mem_printInt (by decide), not_mem_printInt (by decide)⟩

theorem Command.Spelled.plain (h : command.Spelled printed) (hplain : command.Plain) :
    ∀ token ∈ printed, token.Plain := by
  cases h with
  | select keyword tableName key =>
    have htable : IsWord tableName := hplain
    simp [keyword.operation (by decide), htable.plain, plain_printInt]
  | insert keyword tableName key value =>
    obtain ⟨htable, hvalue, -⟩ := hplain
    have hquoted : (Token.quoted value.bytes).Plain := hvalue
    simp [keyword.operation (by decide), htable.plain, plain_printInt, hquoted]
  | insertAt keyword tableName key value timestamp =>
    obtain ⟨htable, hvalue, -⟩ := hplain
    have hquoted : (Token.quoted value.bytes).Plain := hvalue
    simp [keyword.operation (by decide), htable.plain, plain_printInt, hquoted]
  | create keyword spelled tableName partitions compactionTime =>
    obtain ⟨htable, -⟩ := hplain
    simp [keyword.operation (by decide), htable.plain, spelled.consistency, plain_printInt]
  | describe keyword => simp [keyword.operation (by decide)]
  | describeTable keyword tableName =>
    have htable : IsWord tableName := hplain tableName rfl
    simp [keyword.operation (by decide), htable.plain]
  | drop keyword tableName =>
    have htable : IsWord tableName := hplain
    simp [keyword.operation (by decide), htable.plain]
  | journal keyword => simp [keyword.operation (by decide)]
  | add keyword memory toWord spelled memoryNumber =>
    have hmemory := memory.plain (by decide) (by decide) (by decide)
    have hto := toWord.plain (by decide) (by decide) (by decide)
    simp [keyword.operation (by decide), hmemory, hto, spelled.consistency, plain_printInt]
  | run keyword path =>
    have hpath : IsWord path := hplain
    simp [keyword.operation (by decide), hpath.plain]
  | metrics keyword => simp [keyword.operation (by decide)]

/-- The tokens of a line that a command is printed as. -/
theorem Command.Spelled.split (h : command.Spelled printed) (hplain : command.Plain)
    (hline : Printed printed line.bytes) :
    stringSplitIgnoreQuotes line = printed.map Token.text :=
  stringSplitIgnoreQuotes_printed hline (h.plain hplain)

/-! ## Words and numbers -/

theorem SpelledAs.equals (h : SpelledAs word expected) (other : Bytes) :
    stringEqualsIgnoreCase word other = decide (expected = toUppercase other) := by
  unfold SpelledAs at h
  rw [stringEqualsIgnoreCase, h]

theorem getOperation_keyword {operation : Operation} {rest : List Bytes}
    (hsplit : stringSplitIgnoreQuotes line = word :: rest)
    (hword : SpelledAs word operation.keyword) (hvalid : operation ≠ .invalid)
    (hadd : operation = .add → ∃ second, rest.head? = some second ∧
      SpelledAs second memoryKeyword) :
    getOperation line = operation := by
  unfold getOperation
  rw [hsplit]
  simp only [hword.equals]
  cases operation with
  | invalid => exact absurd rfl hvalid
  | add =>
    obtain ⟨second, hhead, hsecond⟩ := hadd rfl
    rw [hhead]
    simp only [Option.any_some, hsecond.equals]
    decide
  | _ => rfl

theorem consistencyOf_keyword {consistency : Consistency} (h : SpelledAs word consistency.keyword) :
    consistencyOf word = consistency ∧ validConsistency word = true := by
  unfold consistencyOf validConsistency
  simp only [h.equals]
  cases consistency <;> exact ⟨rfl, rfl⟩

theorem strtolEnd_decimal (n : Nat) : strtolEnd (decimal n) = [] := by
  unfold strtolEnd
  cases hd : decimal n with
  | nil => exact absurd hd (decimal_ne_nil n)
  | cons b rest =>
    have hdigits : ∀ c ∈ b :: rest, isDigit c = true := by
      rw [← hd]
      exact fun c hc => isDigit_of_mem_decimal hc
    -- no space and no sign is skipped before the digits
    have hb := hdigits b List.mem_cons_self
    obtain ⟨hspace, hminus, hplus⟩ := isDigit_not_space hb
    rw [List.dropWhile_cons_of_neg (by simp [hspace])]
    simp only [hminus, hplus, or_self, if_false, hb, if_true]
    exact List.dropWhile_eq_nil_iff.mpr hdigits

theorem isNumber_printInt {i : Int} (h : 0 ≤ i) : isNumber (printInt i) = true := by
  unfold isNumber printInt
  rw [if_neg (by omega), strtolEnd_decimal]
  rfl

theorem validKey_printInt (key : UInt16) : validKey (printInt key.toNat) = true := by
  have hkey := key.toNat_lt
  -- a key is printed as the `long` that it is read as
  have hlong : ((key.toNat : Nat) : Int) = (Int64.ofNat key.toNat).toInt :=
    (Int64.toInt_ofNat_of_lt (by omega)).symm
  have hnumber := isNumber_printInt (i := key.toNat) (by omega)
  unfold validKey
  rw [hnumber, hlong, strtoll_printInt, ← hlong]
  simp only [true_and, decide_eq_true_eq]
  omega

theorem validNumber_printInt {x : Int64} (h : 0 ≤ x.toInt) :
    validNumber (printInt x.toInt) = true := by
  unfold validNumber
  rw [isNumber_printInt h, strtoll_printInt]
  simp [h]

/-- An `int` is read as a `long`. -/
theorem strtoll_int32 (x : Int32) : strtoll (printInt x.toInt) = x.toInt64 := by
  rw [← Int32.toInt_toInt64, strtoll_printInt]

theorem validNumber_int32 {x : Int32} (h : 0 ≤ x.toInt) :
    validNumber (printInt x.toInt) = true := by
  rw [← Int32.toInt_toInt64] at h ⊢
  exact validNumber_printInt h

theorem stringToInt_int32 (x : Int32) : stringToInt (printInt x.toInt) = x := by
  unfold stringToInt
  rw [strtoll_int32, Int32.toInt32_toInt64]

/-! ## Lines of commands -/

theorem Command.operation_ne_invalid (command : Command) : command.operation ≠ .invalid := by
  cases command <;> exact nofun

/-- The first token is the keyword, and `MEMORY` comes after `ADD`. -/
theorem Command.Spelled.keyword (h : command.Spelled printed) :
    ∃ word rest, printed.map Token.text = word :: rest ∧ SpelledAs word command.operation.keyword ∧
      (command.operation = .add → ∃ second, rest.head? = some second ∧
        SpelledAs second memoryKeyword) := by
  cases h with
  | add keyword memory toWord spelled memoryNumber =>
    exact ⟨_, _, rfl, keyword, fun _ => ⟨_, rfl, memory⟩⟩
  | select keyword => exact ⟨_, _, rfl, keyword, nofun⟩
  | insert keyword => exact ⟨_, _, rfl, keyword, nofun⟩
  | insertAt keyword => exact ⟨_, _, rfl, keyword, nofun⟩
  | create keyword => exact ⟨_, _, rfl, keyword, nofun⟩
  | describe keyword => exact ⟨_, _, rfl, keyword, nofun⟩
  | describeTable keyword => exact ⟨_, _, rfl, keyword, nofun⟩
  | drop keyword => exact ⟨_, _, rfl, keyword, nofun⟩
  | journal keyword => exact ⟨_, _, rfl, keyword, nofun⟩
  | run keyword => exact ⟨_, _, rfl, keyword, nofun⟩
  | metrics keyword => exact ⟨_, _, rfl, keyword, nofun⟩

theorem Command.Spelled.getOperation (h : command.Spelled printed)
    (hsplit : stringSplitIgnoreQuotes line = printed.map Token.text) :
    Lissandra.getOperation line = command.operation := by
  obtain ⟨word, rest, htokens, hword, hadd⟩ := h.keyword
  rw [htokens] at hsplit
  exact getOperation_keyword hsplit hword command.operation_ne_invalid hadd

theorem Command.Spelled.validated (h : command.Spelled printed) (hplain : command.Plain)
    (hsplit : stringSplitIgnoreQuotes line = printed.map Token.text) :
    validateInput command.operation line = true := by
  unfold validateInput
  rw [hsplit]
  cases h with
  | select => exact validKey_printInt _
  | insert => exact validKey_printInt _
  | insertAt keyword tableName key value timestamp =>
    have htimestamp : 0 ≤ timestamp.toInt := hplain.2.2 timestamp rfl
    show (validKey _ && validNumber _) = true
    rw [Bool.and_eq_true]
    exact ⟨validKey_printInt key, validNumber_printInt htimestamp⟩
  | create keyword spelled tableName partitions compactionTime =>
    obtain ⟨-, hpartitions, hcompaction⟩ := hplain
    show (validConsistency _ && validNumber _ && validNumber _) = true
    rw [Bool.and_eq_true, Bool.and_eq_true]
    exact ⟨⟨(consistencyOf_keyword spelled).2, validNumber_int32 hpartitions⟩,
      validNumber_printInt hcompaction⟩
  | add keyword memory toWord spelled memoryNumber =>
    have hto : stringEqualsIgnoreCase _ toKeyword = true := toWord.equals toKeyword
    show (validNumber _ && stringEqualsIgnoreCase _ toKeyword && validConsistency _) = true
    rw [Bool.and_eq_true, Bool.and_eq_true]
    exact ⟨⟨validNumber_int32 hplain, hto⟩, (consistencyOf_keyword spelled).2⟩
  | _ => rfl

/-! The inputs that are read from the tokens. -/

theorem selectInput_spelled (word : Bytes) (tableName : CString) (key : UInt16) :
    selectInput [word, tableName.bytes, printInt key.toNat] = some ⟨tableName, key⟩ := by
  simp [selectInput, stringToUint16_printInt]

theorem insertInput_spelled (word : Bytes) (tableName : CString) (key : UInt16) (value : CString) :
    insertInput [word, tableName.bytes, printInt key.toNat, value.bytes] =
      some ⟨tableName, key, value, -1⟩ := by
  simp [insertInput, stringToUint16_printInt]

theorem insertInput_spelledAt (word : Bytes) (tableName : CString) (key : UInt16) (value : CString)
    (timestamp : Int64) :
    insertInput [word, tableName.bytes, printInt key.toNat, value.bytes, printInt timestamp.toInt] =
      some ⟨tableName, key, value, timestamp⟩ := by
  simp [insertInput, stringToUint16_printInt, stringToLongLong]

theorem createInput_spelled (word : Bytes) {criterion : Bytes} {consistency : Consistency}
    (spelled : SpelledAs criterion consistency.keyword) (tableName : CString) (partitions : Int32)
    (compactionTime : Int64) :
    createInput [word, tableName.bytes, criterion, printInt partitions.toInt,
        printInt compactionTime.toInt] =
      some ⟨tableName, consistency, partitions, compactionTime⟩ := by
  simp [createInput, (consistencyOf_keyword spelled).1, stringToInt_int32, stringToLong]

theorem describeInput_spelled (word : Bytes) (tableName : CString) :
    describeInput [word, tableName.bytes] = some ⟨some tableName⟩ := by
  simp [describeInput]

theorem dropInput_spelled (word : Bytes) (tableName : CString) :
    dropInput [word, tableName.bytes] = some ⟨tableName⟩ := by
  simp [dropInput]

theorem addInput_spelled (word second third : Bytes) {criterion : Bytes} {consistency : Consistency}
    (spelled : SpelledAs criterion consistency.keyword) (memoryNumber : Int32) :
    addInput [word, second, printInt memoryNumber.toInt, third, criterion] =
      some ⟨memoryNumber, consistency⟩ := by
  simp [addInput, (consistencyOf_keyword spelled).1, stringToInt_int32]

theorem runInput_spelled (word : Bytes) (path : CString) :
    runInput [word, path.bytes] = some ⟨path⟩ := by
  simp [runInput]

theorem Command.Spelled.processed (h : command.Spelled printed)
    (hsplit : stringSplitIgnoreQuotes line = printed.map Token.text) :
    processInput command.operation line = some command.call := by
  unfold processInput
  rw [hsplit]
  cases h with
  | select keyword tableName key =>
    exact congrArg (Option.map _) (selectInput_spelled _ tableName key)
  | insert keyword tableName key value =>
    exact congrArg (Option.map _) (insertInput_spelled _ tableName key value)
  | insertAt keyword tableName key value timestamp =>
    exact congrArg (Option.map _) (insertInput_spelledAt _ tableName key value timestamp)
  | create keyword spelled tableName partitions compactionTime =>
    exact congrArg (Option.map _) (createInput_spelled _ spelled tableName partitions
      compactionTime)
  | describeTable keyword tableName =>
    exact congrArg (Option.map _) (describeInput_spelled _ tableName)
  | drop keyword tableName => exact congrArg (Option.map _) (dropInput_spelled _ tableName)
  | add keyword memory toWord spelled memoryNumber =>
    exact congrArg (Option.map _) (addInput_spelled _ _ _ spelled memoryNumber)
  | run keyword path => exact congrArg (Option.map _) (runInput_spelled _ path)
  | _ => rfl

/-- **Scripts and the console agree** on every line that a script may have and that is not a `RUN`:
the statement is the one of the call. -/
theorem addStatement_eq_processInput {operation : Operation}
    (hscript : operation ∉ [Operation.add, .metrics, .run]) (hvalid : operation ≠ .invalid)
    (onInnerRunRequest : List Statement → RunInput → Option (List Statement))
    (statements : List Statement) (line : CString) :
    addStatement onInnerRunRequest statements operation line =
      (processInput operation line).map fun call => statements ++ [call.statement operation] := by
  unfold addStatement processInput
  cases operation with
  | add => exact absurd (by decide) hscript
  | metrics => exact absurd (by decide) hscript
  | run => exact absurd (by decide) hscript
  | invalid => exact absurd rfl hvalid
  | journal => rfl
  | _ =>
    dsimp only
    rw [Option.map_map]
    rfl

theorem Command.Spelled.added (h : command.Spelled printed)
    (hsplit : stringSplitIgnoreQuotes line = printed.map Token.text)
    (hscript : command.operation ∉ [Operation.add, .metrics, .run])
    (onInnerRunRequest : List Statement → RunInput → Option (List Statement))
    (statements : List Statement) :
    addStatement onInnerRunRequest statements command.operation line =
      some (statements ++ [command.call.statement command.operation]) := by
  rw [addStatement_eq_processInput hscript command.operation_ne_invalid, h.processed hsplit]
  rfl

end Tokens

/-- **The command language is parsed as written.**  Console and scripts take every line that a
command is printed as for this command, with these fields. -/
theorem parsed_as_written {command : Command} (hplain : command.Plain) {printed : List Token}
    (hspelled : command.Spelled printed) {line : CString} (hline : Printed printed line.bytes) :
    getOperation line = command.operation ∧ validateInput command.operation line = true ∧
      processInput command.operation line = some command.call ∧
      (command.operation ∉ [Operation.add, .metrics, .run] →
        ∀ onInnerRunRequest statements,
          addStatement onInnerRunRequest statements command.operation line =
            some (statements ++ [command.call.statement command.operation])) := by
  have hsplit := hspelled.split hplain hline
  exact ⟨hspelled.getOperation hsplit, hspelled.validated hplain hsplit, hspelled.processed hsplit,
    hspelled.added hsplit⟩

/-- `  insert T 1 "a b"  5 `, with the value `a b`. -/
theorem parsed_as_written_insert :
    let line := CString.ofBytes [32, 32, 105, 110, 115, 101, 114, 116, 32, 84, 32, 49, 32, 34, 97,
      32, 98, 34, 32, 32, 53, 32]
    getOperation line = .insert ∧ validateInput .insert line = true ∧
      processInput .insert line = some (.insert ⟨.ofBytes [84], 1, .ofBytes [97, 32, 98], 5⟩) := by
  have hspelled := @Command.Spelled.insertAt [105, 110, 115, 101, 114, 116] rfl
    (CString.ofBytes [84]) 1 (CString.ofBytes [97, 32, 98]) 5
  have hplain : (Command.insert (CString.ofBytes [84]) 1 (CString.ofBytes [97, 32, 98])
    (some 5)).Plain := by
    decide
  obtain ⟨hoperation, hvalid, hcall, -⟩ := @parsed_as_written _ hplain _ hspelled
    (CString.ofBytes [32, 32, 105, 110, 115, 101, 114, 116, 32, 84, 32, 49, 32, 34, 97, 32, 98, 34,
      32, 32, 53, 32])
    (.spaces (.spaces (.spaced _ (.spaced _ (.spaced _ (.spaced _ (.spaces (.spaced _ .nil))))))))
  exact ⟨hoperation, hvalid, hcall⟩

end Lissandra
