import Lissandra.Console
import Lissandra.MemoryNode
import Lissandra.Requests

/-! # Bounds of a record

The buffers of the filesystem have `tkv_size()` bytes and the pages of a memory
`g_total_page_size`.  Both are computed from the digits of the current time, while the
timestamp of an INSERT may be any `long long` that is not negative.  A record fits exactly if
the digits that its timestamp has over the current time are made up for by its key and its
value (`recordFits_iff`).
-/
namespace Lissandra

/-- `tkv_size()` at this time, and the `g_total_page_size` that was computed at this time. -/
def tkvSize (now maxValueSize : Nat) : Nat :=
  digitsInANumber 65535 + digitsInANumber now + maxValueSize + 3

theorem getValueCallback_pageSize {allocated : Bytes} {value now : Nat} {node : MemoryNode}
    (h : getValueCallback allocated value now = some node) :
    node.memory.totalPageSize = tkvSize now value := by
  unfold getValueCallback at h
  dsimp only at h
  split at h
  · cases h
  · obtain rfl := Option.some.inj h
    have hloop : ∀ (indexes : List Nat) (memory : MainMemory) (size : Nat),
        (indexes.foldl (fun memory i => memory.strcpy (i * size) null) memory).totalPageSize =
          memory.totalPageSize := by
      intro indexes
      induction indexes with
      | nil => exact fun memory size => rfl
      | cons i indexes ih => exact fun memory size => ih _ _
    exact hloop _ _ _

/-- A record in the buffers of the filesystem and in the pages of a memory. -/
structure RecordFits (record : Record) (tkvSize totalPageSize : Nat) : Prop where
  /-- The text with its NUL is at most a buffer. -/
  text_fits : (convertToTkv record).length + 1 ≤ tkvSize
  /-- Reading a buffer at the text reads its NUL. -/
  buffer_ends : ∀ rest : Bytes, 0 ∈ (convertToTkv record ++ 0 :: rest).take tkvSize
  /-- The text with its NUL is at most a page. -/
  page_fits : (memoryText record.timestamp record.key.toNat record.value).length + 1 ≤ totalPageSize
  /-- Storing the record in a page leaves the others as they are. -/
  pages_kept : ∀ memory : MainMemory, memory.Formatted → memory.totalPageSize = totalPageSize →
    ∀ i, findNull memory memory.totalPageCount 0 = some i → ∀ j < memory.totalPageCount, j ≠ i →
      (memoryInsert memory record.timestamp record.key.toNat record.value).1.page j = memory.page j

section Fits
variable {record : Record}

theorem length_convertToTkv (record : Record) :
    (convertToTkv record).length =
      (printInt record.timestamp.toInt).length + (printInt record.key.toNat).length +
      record.value.length + 2 := by
  unfold convertToTkv tkvText
  simp only [List.length_append, List.length_cons]
  omega

/-- The bound is enough for all the rest. -/
theorem recordFits_of_length {size pageSize : Nat} (hnul : 0 ∉ record.value)
    (hsize : (convertToTkv record).length + 1 ≤ size)
    (hpage : (convertToTkv record).length + 1 ≤ pageSize) : RecordFits record size pageSize := by
  have htext : memoryText record.timestamp record.key.toNat record.value = convertToTkv record :=
    memoryText_eq record.timestamp record.key record.value
  refine ⟨hsize, fun rest => ?_, htext ▸ hpage,
    fun memory hformatted hpageSize i hfind j hj hne => ?_⟩
  · -- the NUL is the first byte behind the text, which the buffer has room for
    rw [List.take_append, List.mem_append]
    obtain ⟨extra, hextra⟩ := Nat.exists_eq_add_of_lt hsize
    refine .inr ?_
    have hroom : size - (convertToTkv record).length = extra + 1 := by omega
    rw [hroom, List.take_succ_cons]
    exact List.mem_cons_self
  · obtain ⟨-, hi, -⟩ := findNull_some hfind
    have hinsert : (memoryInsert memory record.timestamp record.key.toNat record.value).1 =
        memory.strcpy (i * memory.totalPageSize) (convertToTkv record) := by
      unfold memoryInsert
      rw [hfind, htext]
    have hshort : (convertToTkv record).length < memory.totalPageSize := hpageSize ▸ hpage
    rw [hinsert, (hformatted.strcpy (by omega) hshort (not_mem_convertToTkv (by decide) hnul)).2 j
      hj, if_neg hne]

theorem length_decimal_le {m n : Nat} (h : m ≤ n) : (decimal m).length ≤ (decimal n).length := by
  induction n using Nat.strong_induction_on generalizing m with
  | _ n ih =>
    rw [decimal_step m, decimal_step n]
    by_cases hn : n < 10
    · rw [if_pos hn, if_pos (by omega)]
      exact le_rfl
    · rw [if_neg hn]
      by_cases hm : m < 10
      · rw [if_pos hm]
        simp
      · rw [if_neg hm, List.length_append, List.length_append]
        have hshorter := ih (n / 10) (by omega) (Nat.div_le_div_right h)
        simpa using hshorter

/-- A key has at most five digits. -/
theorem length_key_le (key : UInt16) : digitsInANumber key.toNat ≤ digitsInANumber 65535 :=
  length_decimal_le (Nat.le_of_lt_succ key.toNat_lt)

theorem length_printInt_natCast (n : Nat) : (printInt n).length = digitsInANumber n := by
  unfold printInt digitsInANumber
  rw [if_neg (by omega), Int.natAbs_natCast]

/-- The text of what an INSERT stores. -/
theorem length_insertedRecord (now : Int64) (input : InsertInput) :
    (convertToTkv (insertedRecord now input)).length =
      (printInt (insertedRecord now input).timestamp.toInt).length +
        digitsInANumber input.key.toNat + input.value.bytes.length + 2 := by
  rw [length_convertToTkv, length_printInt_natCast]
  rfl

theorem validateInput_insert {line : CString} (h : validateInput .insert line = true) :
    ∃ input, processInput .insert line = some (.insert input) := by
  have hvalid : validateInsert (stringSplitIgnoreQuotes line) = true := h
  unfold processInput
  generalize stringSplitIgnoreQuotes line = tokens at hvalid ⊢
  match tokens, hvalid with
  | [_, _, _, _], _ => exact ⟨_, rfl⟩
  | [_, _, _, _, _], _ => exact ⟨_, rfl⟩

end Fits

/-- **When a record fits.**  An INSERT that was accepted makes a record that fits into the buffers
and the pages exactly if the digits that its timestamp has over the time, at the reading and
when the pages were laid out, are no more than the digits that its key has below five and the
bytes that its value has below the maximum. -/
theorem recordFits_iff {line : CString} (hvalid : validateInput .insert line = true) :
    ∃ input, processInput .insert line = some (.insert input) ∧
      ∀ (config : FsConfig) (fs fs' : Filesystem) (insertNow : Int64) (readNow setupNow : Nat),
        processInsert config insertNow input fs = (0, fs') →
        let record := insertedRecord insertNow input
        (RecordFits record (tkvSize readNow config.maxValueSize)
            (tkvSize setupNow config.maxValueSize) ↔
          (printInt record.timestamp.toInt).length -
              min (digitsInANumber readNow) (digitsInANumber setupNow) ≤
            (digitsInANumber 65535 - digitsInANumber record.key.toNat) +
              (config.maxValueSize - record.value.length)) := by
  obtain ⟨input, hinput⟩ := validateInput_insert hvalid
  refine ⟨input, hinput, fun config fs fs' insertNow readNow setupNow haccepted => ?_⟩
  have hvalue := value_length_of_accepted (congrArg Prod.fst haccepted)
  have hkey := length_key_le input.key
  have hlength := length_insertedRecord insertNow input
  dsimp only
  constructor
  · rintro ⟨htext, -, hpage, -⟩
    rw [memoryText_eq] at hpage
    have hpage' : (convertToTkv (insertedRecord insertNow input)).length + 1 ≤ _ := hpage
    rw [hlength] at htext hpage'
    unfold tkvSize at htext hpage'
    show _ ≤ digitsInANumber 65535 - digitsInANumber input.key.toNat +
      (config.maxValueSize - input.value.bytes.length)
    omega
  · intro hextra
    have hextra' : _ ≤ digitsInANumber 65535 - digitsInANumber input.key.toNat +
      (config.maxValueSize - input.value.bytes.length) := hextra
    -- the bound is for the earlier of the two times, so for both
    apply recordFits_of_length input.value.noNul
    all_goals
      rw [hlength]
      unfold tkvSize
      omega

/-- A filesystem with the table `T`, which has no partition. -/
def oneTable : Filesystem :=
  ⟨Storage.formatted 64 8, (∅ : AList fun _ : Bytes => Table).insert [84]
    ⟨.strongConsistency, 1000, [], [], none⟩, []⟩

/-- `INSERT T 1 "a" 5`, with values of four bytes. -/
theorem recordFits_five : ∃ input,
    processInput .insert
        (.ofBytes [73, 78, 83, 69, 82, 84, 32, 84, 32, 49, 32, 34, 97, 34, 32, 53]) =
      some (.insert input) ∧
    RecordFits (insertedRecord 1561000000000 input) (tkvSize 1561000000000 4)
      (tkvSize 1561000000000 4) := by
  obtain ⟨input, hinput, hfits⟩ := @recordFits_iff
    (.ofBytes [73, 78, 83, 69, 82, 84, 32, 84, 32, 49, 32, 34, 97, 34, 32, 53]) (by decide)
  have hcall : processInput .insert
      (.ofBytes [73, 78, 83, 69, 82, 84, 32, 84, 32, 49, 32, 34, 97, 34, 32, 53]) =
        some (.insert ⟨.ofBytes [84], 1, .ofBytes [97], 5⟩) := rfl
  obtain rfl := ConsoleCall.insert.inj (Option.some.inj (hcall.symm.trans hinput))
  exact ⟨_, hinput, (hfits ⟨23, 4⟩ oneTable _ 1561000000000 1561000000000 1561000000000 rfl).mpr
    (by decide)⟩

/-- `INSERT T 65535 "ab" 9223372036854775807`, with values of two bytes: the record does not fit,
and storing it in the first of two pages changes the second one. -/
theorem longest_timestamp_overflows :
    let line := CString.ofBytes [73, 78, 83, 69, 82, 84, 32, 84, 32, 54, 53, 53, 51, 53, 32, 34, 97,
      98, 34, 32, 57, 50, 50, 51, 51, 55, 50, 48, 51, 54, 56, 53, 52, 55, 55, 53, 56, 48, 55]
    let input : InsertInput := ⟨.ofBytes [84], 65535, .ofBytes [97, 98], 9223372036854775807⟩
    let record := insertedRecord 1561000000000 input
    let memory := initMainMemory (List.replicate 46 0) (tkvSize 1561000000000 2) 2
    validateInput .insert line = true ∧ processInput .insert line = some (.insert input) ∧
      (processInsert ⟨23, 2⟩ 1561000000000 input oneTable).1 = 0 ∧
      ¬ RecordFits record (tkvSize 1561000000000 2) (tkvSize 1561000000000 2) ∧
      (memoryInsert memory record.timestamp record.key.toNat record.value).1.page 1 ≠
        memory.page 1 := by
  refine ⟨by decide, rfl, rfl, fun hfits => ?_, by decide⟩
  exact absurd hfits.text_fits (by decide)

end Lissandra
