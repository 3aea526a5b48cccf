import Lissandra.Console
import Lissandra.Requests

/-! # The tables of `CREATE` commands

`validate_create` checks the number of partitions as a `long`, `string_to_int` makes an `int`
of it, and `process_create` makes as many partitions, none included.  A SELECT and a
compaction take the key modulo the partitions.  They find a partition for every key exactly
if the number was typed from 1 to `INT_MAX` (`createsAddressable_iff`).
-/
namespace Lissandra

/-- The number of partitions as it was typed. -/
def typedPartitions (line : CString) : Int :=
  match stringSplitIgnoreQuotes line with
  | [_, _, _, partitions, _] => parseInt partitions
  | _ => 0

/-- Every key has a partition, in `search_in_partition` and in `get_tkvs_to_insert`. -/
structure Table.Addressable (table : Table) (partitions : Int32) : Prop where
  stored : (table.partitions.length : Int) = partitions.toInt
  searched : ∀ key : UInt16, (table.partitions[key.toNat % table.partitions.length]?).isSome
  distributed : ∀ tmpcTkvs partitionTkvs, partitionTkvs.length = table.partitions.length →
    (getTkvsToInsert tmpcTkvs partitionTkvs).isSome

/-- The partitions of the input are the number that was typed, at least one, and the table that
a filesystem makes of it has a partition for every key. -/
def CreatesAddressable (line : CString) : Prop :=
  ∃ input, processInput .create line = some (.create input) ∧
    1 ≤ input.partitions.toInt ∧ input.partitions.toInt = typedPartitions line ∧
    ∀ fs fs', processCreate input fs = some (0, fs') →
      ∃ table, fs'.tables.lookup (toUppercase input.tableName.bytes) = some table ∧
        table.Addressable input.partitions

theorem getTkvsToInsert_isSome {tmpcTkvs : List Record} {partitionTkvs : List (List Record)}
    (h : partitionTkvs ≠ []) : (getTkvsToInsert tmpcTkvs partitionTkvs).isSome := by
  rw [getTkvsToInsert_eq _ h]
  rfl

/-- A table with partitions is addressable. -/
theorem addressable_of_pos {table : Table} {partitions : Int32}
    (hstored : (table.partitions.length : Int) = partitions.toInt) (hpos : 1 ≤ partitions.toInt) :
    table.Addressable partitions := by
  have hlength : 0 < table.partitions.length := by omega
  refine ⟨hstored, fun key => ?_, fun tmpcTkvs partitionTkvs heq => getTkvsToInsert_isSome ?_⟩
  · rw [List.getElem?_eq_getElem (Nat.mod_lt _ hlength)]
    rfl
  · rintro rfl
    rw [← heq] at hlength
    exact Nat.lt_irrefl 0 hlength

theorem addressable_of_processCreate {input : CreateInput} {fs fs' : Filesystem}
    (hrun : processCreate input fs = some (0, fs')) (hpos : 1 ≤ input.partitions.toInt) :
    ∃ table, fs'.tables.lookup (toUppercase input.tableName.bytes) = some table ∧
      table.Addressable input.partitions := by
  obtain ⟨hstatus, -⟩ | ⟨-, -, taken, bitmap, -, hcount, rfl⟩ := processCreate_cases hrun
  · exact absurd rfl hstatus
  · refine ⟨_, AList.lookup_insert _, addressable_of_pos ?_ hpos⟩
    rw [List.length_map, hcount]
    exact Int.toNat_of_nonneg (by omega)

/-- A number that fits an `int` is kept. -/
theorem stringToInt_of_fits {text : Bytes} (hmin : -2147483648 ≤ parseInt text)
    (hmax : parseInt text ≤ 2147483647) : (stringToInt text).toInt = parseInt text := by
  obtain ⟨x, hx⟩ : ∃ x : Int32, parseInt text = x.toInt :=
    ⟨Int32.ofInt (parseInt text), (Int32.toInt_ofInt_of_le hmin (by omega)).symm⟩
  have hlong : strtoll text = x.toInt64 := by
    unfold strtoll
    rw [hx, ← Int32.toInt_toInt64, Int64.ofIntClamp_toInt]
  unfold stringToInt
  rw [hlong, Int32.toInt32_toInt64, hx]

theorem validateInput_create {line : CString} (h : validateInput .create line = true) :
    ∃ keyword tableName consistency partitions compaction,
      stringSplitIgnoreQuotes line = [keyword, tableName, consistency, partitions, compaction] := by
  have hvalid : validateCreate (stringSplitIgnoreQuotes line) = true := h
  unfold validateCreate at hvalid
  split at hvalid
  · exact ⟨_, _, _, _, _, ‹_›⟩
  · cases hvalid

/-- **When a created table can be addressed**: exactly if the number of partitions was typed from 1
to `INT_MAX`. -/
theorem createsAddressable_iff {line : CString} (hvalid : validateInput .create line = true) :
    CreatesAddressable line ↔ 1 ≤ typedPartitions line ∧ typedPartitions line ≤ 2147483647 := by
  obtain ⟨keyword, tableName, consistency, partitions, compaction, hsplit⟩ :=
    validateInput_create hvalid
  have htyped : typedPartitions line = parseInt partitions := by
    unfold typedPartitions
    rw [hsplit]
  have hinput : processInput .create line = some (.create
      ⟨.ofBytes tableName, consistencyOf consistency, stringToInt partitions,
        stringToLong compaction⟩) := by
    unfold processInput
    rw [hsplit]
    rfl
  rw [htyped]
  constructor
  · rintro ⟨input, hprocess, hpos, heq, -⟩
    obtain rfl := ConsoleCall.create.inj (Option.some.inj (hinput.symm.trans hprocess))
    -- what the conversion leaves is an `int`, and here it is what was typed
    have hmax := (stringToInt partitions).toInt_lt
    rw [htyped] at heq
    dsimp only at hpos heq
    omega
  · rintro ⟨hmin, hmax⟩
    have hkept := stringToInt_of_fits (by omega) hmax
    refine ⟨_, hinput, ?_, ?_, fun fs fs' hrun => addressable_of_processCreate hrun ?_⟩
    · rw [hkept]
      exact hmin
    · rw [htyped, hkept]
    · rw [hkept]
      exact hmin

/-- `CREATE T SC 4 1000`. -/
theorem createsAddressable_four :
    CreatesAddressable (.ofBytes
      [67, 82, 69, 65, 84, 69, 32, 84, 32, 83, 67, 32, 52, 32, 49, 48, 48, 48]) :=
  (createsAddressable_iff (by decide)).mpr (by decide)

/-- `CREATE T SC 0 1000` is accepted, and makes a table in which no key can be searched. -/
theorem create_zero_accepted :
    let line := CString.ofBytes [67, 82, 69, 65, 84, 69, 32, 84, 32, 83, 67, 32, 48, 32, 49, 48,
      48, 48]
    processCommand line .filesystem =
        some (some (.create ⟨.ofBytes [84], .strongConsistency, 0, 1000⟩)) ∧
      ¬ CreatesAddressable line ∧
      ∃ fs', processCreate ⟨.ofBytes [84], .strongConsistency, 0, 1000⟩ (.formatted 64 8) =
          some (0, fs') ∧
        ∀ config key, searchInPartition config fs' [84] key = none := by
  refine ⟨rfl, ?_, _, rfl, fun config key => rfl⟩
  rintro ⟨input, hprocess, hpos, -⟩
  obtain rfl := ConsoleCall.create.inj (Option.some.inj hprocess)
  exact absurd hpos (by decide)

end Lissandra
