import Lissandra.KeySearching
import Lissandra.MainMemory

/-! # One text, four writers and three readers

The text `timestamp;key;value` is written by `create_tkv` and `convert_to_tkv` in the
filesystem and by `memory_insert` and `modify_memory_by_index` in a memory node; it is
taken apart by `convert_record`, `convert_to_record` and `main_memory_values`.  Nothing
escapes the separator and every reader keeps three pieces, so a value comes back exactly
when it holds no `;` (`parse_text_iff`).
-/
namespace Lissandra

/-! ## Writers and readers -/

/-- A function that writes the text of a record. -/
inductive Encoder where
  | createTkv
  | convertToTkv
  | memoryInsert
  | modifyMemoryByIndex
  deriving DecidableEq, Repr

/-- The text written. -/
def Encoder.text (tableName : CString) (timestamp : Int64) (key : UInt16) (value : CString) :
    Encoder → Bytes
  | .createTkv => Lissandra.createTkv ⟨tableName, key, value, timestamp⟩
  | .convertToTkv => Lissandra.convertToTkv ⟨timestamp, key, value.bytes⟩
  | .memoryInsert => memoryText timestamp key.toNat value.bytes
  | .modifyMemoryByIndex => memoryText timestamp key.toNat value.bytes

/-- A function that takes the text apart. -/
inductive Decoder where
  | convertRecord
  | convertToRecord
  | mainMemoryValues
  deriving DecidableEq, Repr

/-- The record of a page, converted as `process_select` converts the three pieces that it
asks `main_memory_values` for. -/
def pageRecord (memory : MainMemory) (index : Int) : Option Found := do
  let timestamp ← mainMemoryValues memory index .timestamp
  let key ← mainMemoryValues memory index .key
  let value ← mainMemoryValues memory index .value
  some ⟨strtoll timestamp, Int32.ofNat (stringToUint16 key).toNat, value⟩

/-- A memory of one page, which holds the text. -/
def onePage (text : Bytes) : MainMemory := ⟨text ++ [0], text.length + 1, 1⟩

/-- The record read. -/
def Decoder.parse (text : Bytes) : Decoder → Option Found
  | .convertRecord => (Lissandra.convertRecord text).map Record.found
  | .convertToRecord => Lissandra.convertToRecord text
  | .mainMemoryValues => pageRecord (onePage text) 0

/-! ## The pieces -/

theorem not_mem_of_mem_splitOn {text piece : Bytes} {separator : Byte}
    (h : piece ∈ text.splitOn separator) : separator ∉ piece := by
  induction text generalizing piece with
  | nil =>
    rw [List.splitOn_nil, List.mem_singleton] at h
    simp [h]
  | cons b rest ih =>
    rw [List.splitOn_cons_eq_if_modifyHead] at h
    split at h
    · rcases List.mem_cons.mp h with rfl | h
      · simp
      · exact ih h
    · rename_i hb
      cases hsplit : rest.splitOn separator with
      | nil => exact absurd hsplit (List.splitOn_ne_nil _ _)
      | cons first pieces =>
        rw [hsplit, List.modifyHead_cons] at h
        have hfirst : separator ∉ first := ih (hsplit ▸ List.mem_cons_self)
        rcases List.mem_cons.mp h with rfl | h
        · have hne : separator ≠ b := fun heq => hb (by simp [heq])
          simp [hne, hfirst]
        · exact ih (hsplit ▸ List.mem_cons_of_mem _ h)

theorem not_mem_of_mem_stringSplit {text piece : Bytes} {separator : Byte}
    (h : piece ∈ stringSplit text separator) : separator ∉ piece :=
  not_mem_of_mem_splitOn (List.mem_of_mem_filter h)

/-- The two numbers are always the first pieces. -/
theorem stringSplit_tkvText (timestamp : Int64) (key : UInt16) (value : Bytes) :
    stringSplit (tkvText timestamp key value) semicolon =
      printInt timestamp.toInt :: printInt key.toNat :: stringSplit value semicolon := by
  have hsemi : ∀ i : Int, semicolon ∉ printInt i := fun i => not_mem_printInt (by decide)
  rw [stringSplit, tkvText, List.splitOn_append_cons_self_of_not_mem (hsemi _),
    List.splitOn_append_cons_self_of_not_mem (hsemi _),
    List.filter_cons_of_pos (by simpa using printInt_ne_nil _),
    List.filter_cons_of_pos (by simpa using printInt_ne_nil _)]
  rfl

/-- The value is the first piece of itself exactly when it holds no separator. -/
theorem head?_stringSplit_iff {value : Bytes} (hvalue : value ≠ []) :
    (stringSplit value semicolon)[0]? = some value ↔ semicolon ∉ value := by
  constructor
  · intro h
    exact not_mem_of_mem_stringSplit (List.mem_of_getElem? h)
  · intro h
    rw [stringSplit, List.splitOn_eq_singleton h, List.filter_cons_of_pos (by simpa using hvalue)]
    rfl

/-! ## Every writer, every reader -/

@[simp] theorem Encoder.text_eq (tableName : CString) (timestamp : Int64) (key : UInt16)
    (value : CString) (encoder : Encoder) :
    encoder.text tableName timestamp key value = tkvText timestamp key value.bytes := by
  cases encoder with
  | createTkv => rfl
  | convertToTkv => rfl
  | memoryInsert => exact memoryText_eq timestamp key value.bytes
  | modifyMemoryByIndex => exact memoryText_eq timestamp key value.bytes

theorem stringAt_onePage {text : Bytes} (h : 0 ∉ text) : (onePage text).stringAt 0 = text := by
  rw [MainMemory.stringAt, onePage, List.drop_zero, List.takeWhile_append_of_pos]
  · simp
  · intro b hb
    have : b ≠ 0 := fun h0 => h (h0 ▸ hb)
    simpa using this

theorem nul_not_mem_tkvText (timestamp : Int64) (key : UInt16) {value : Bytes} (h : 0 ∉ value) :
    0 ∉ tkvText timestamp key value :=
  @not_mem_convertToTkv ⟨timestamp, key, value⟩ 0 (by decide) h

/-- Each reader keeps the two numbers and the first piece of the value. -/
theorem parse_tkvText (decoder : Decoder) (timestamp : Int64) (key : UInt16) (value : CString) :
    decoder.parse (tkvText timestamp key value.bytes) =
      (stringSplit value.bytes semicolon)[0]?.map fun piece =>
        ⟨timestamp, Int32.ofNat key.toNat, piece⟩ := by
  have hsplit := stringSplit_tkvText timestamp key value.bytes
  have hkey : stringToInt (printInt key.toNat) = Int32.ofNat key.toNat := stringToInt_printInt key
  cases decoder with
  | convertRecord =>
    rw [Decoder.parse, convertRecord, hsplit]
    cases stringSplit value.bytes semicolon with
    | nil => rfl
    | cons piece rest => simp [Record.found, stringToUint16_printInt]
  | convertToRecord =>
    rw [Decoder.parse, convertToRecord, hsplit]
    cases stringSplit value.bytes semicolon with
    | nil => rfl
    | cons piece rest => simp [hkey]
  | mainMemoryValues =>
    have hpage := stringAt_onePage (nul_not_mem_tkvText timestamp key value.noNul)
    simp only [Decoder.parse, pageRecord, mainMemoryValues, Int.toNat_zero, hpage, hsplit]
    cases stringSplit value.bytes semicolon with
    | nil => simp [MemoryVar.position]
    | cons piece rest => simp [MemoryVar.position, stringToUint16_printInt]

/-- **The text of a record comes back, from every writer to every reader, exactly when its
value holds no `;`.** -/
theorem parse_text_iff (encoder : Encoder) (decoder : Decoder) (tableName : CString)
    (timestamp : Int64) (key : UInt16) (value : CString) (hvalue : value.bytes ≠ []) :
    decoder.parse (encoder.text tableName timestamp key value) =
      some ⟨timestamp, Int32.ofNat key.toNat, value.bytes⟩ ↔ semicolon ∉ value.bytes := by
  rw [Encoder.text_eq, parse_tkvText, ← head?_stringSplit_iff hvalue]
  cases (stringSplit value.bytes semicolon)[0]? with
  | none => simp
  | some piece => simp

theorem parse_text_iff_word :
    Decoder.mainMemoryValues.parse
      (Encoder.createTkv.text ⟨[84], by decide⟩ 5 1 ⟨[97, 98], by decide⟩) =
      some ⟨5, Int32.ofNat (1 : UInt16).toNat, [97, 98]⟩ ↔ semicolon ∉ ([97, 98] : Bytes) :=
  parse_text_iff .createTkv .mainMemoryValues ⟨[84], by decide⟩ 5 1 ⟨[97, 98], by decide⟩
  (by decide)

/-- `INSERT T 1 "a;b" 0`: every reader gives `a`, and `a;b` to none. -/
theorem parse_text_cut (encoder : Encoder) (decoder : Decoder) :
    decoder.parse (encoder.text ⟨[84], by decide⟩ 0 1 ⟨[97, 59, 98], by decide⟩) =
      some ⟨0, 1, [97]⟩ := by
  rw [Encoder.text_eq, parse_tkvText]
  decide

/-- Not every value that a command line can carry comes back. -/
theorem parse_text_not_faithful :
    ¬ ∀ (encoder : Encoder) (decoder : Decoder) (timestamp : Int64) (key : UInt16)
      (value : CString),
      0 ≤ timestamp.toInt → value.bytes ≠ [] → 34 ∉ value.bytes → newline ∉ value.bytes →
      decoder.parse (encoder.text ⟨[84], by decide⟩ timestamp key value) =
        some ⟨timestamp, Int32.ofNat key.toNat, value.bytes⟩ := by
  intro h
  have hwhole := h .createTkv .convertRecord 0 1 ⟨[97, 59, 98], by decide⟩ (by decide) (by decide)
    (by decide) (by decide)
  rw [parse_text_cut] at hwhole
  exact absurd hwhole (by decide)

end Lissandra
