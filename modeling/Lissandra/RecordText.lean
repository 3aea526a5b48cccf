import Lissandra.DecimalText
import Lissandra.OperationTypes

/-! # The text of a record

In the memtable, in a block and in a page a record is the string
`timestamp;key;value`.  `create_tkv` and `convert_to_tkv` print it, `convert_record`
takes it apart again with `string_split`.  A record is `Storable` when its text comes
back: that is what the archives promise about it (`convertRecord_text`).
-/
namespace Lissandra

/-- The separator `;`. -/
def semicolon : Byte := 59

/-- The mark `\n` behind the part of a record that its block has room for. -/
def newline : Byte := 10

/-- `string_split`: the pieces between the separators, empty ones dropped. -/
def stringSplit (text : Bytes) (separator : Byte) : List Bytes :=
  (text.splitOn separator).filter (· ≠ [])

/-- `string_ends_with(text, "\n")`. -/
def endsWithNewline (text : Bytes) : Bool := text.getLast? = some newline

/-- `string_to_uint16`. -/
def stringToUint16 (text : Bytes) : UInt16 := (strtoll text).toUInt64.toUInt16

/-- `string_to_int`. -/
def stringToInt (text : Bytes) : Int32 := (strtoll text).toInt32

/-! ## Records and their text -/

/-- A `record_t` as the archives hold it. -/
structure Record where
  timestamp : Int64
  key : UInt16
  value : Bytes
  deriving DecidableEq, Repr

/-- `sprintf(_, "%lld;%d;%s", timestamp, key, value)`. -/
def tkvText (timestamp : Int64) (key : UInt16) (value : Bytes) : Bytes :=
  printInt timestamp.toInt ++ semicolon :: (printInt key.toNat ++ semicolon :: value)

/-- `create_tkv`. -/
def createTkv (input : InsertInput) : Bytes := tkvText input.timestamp input.key input.value.bytes

/-- `convert_to_tkv`. -/
def convertToTkv (record : Record) : Bytes := tkvText record.timestamp record.key record.value

/-- `convert_record`.  With fewer than three pieces it reads past the array. -/
def convertRecord (text : Bytes) : Option Record :=
  match stringSplit text semicolon with
  | timestamp :: key :: value :: _ => some ⟨strtoll timestamp, stringToUint16 key, value⟩
  | _ => none

/-- A record whose text an archive gives back, where `tkvSize` is `tkv_size()`: it came
from a request (no negative timestamp), its value is a string that `string_split` leaves
alone and that no continuation mark can be mistaken for, and a reader's buffer holds its
text and the NUL. -/
structure Storable (tkvSize : Nat) (record : Record) : Prop where
  timestamp_nonneg : 0 ≤ record.timestamp.toInt
  value_ne : record.value ≠ []
  value_nul : 0 ∉ record.value
  value_semicolon : semicolon ∉ record.value
  value_newline : newline ∉ record.value
  text_fits : (convertToTkv record).length + 1 ≤ tkvSize

instance (tkvSize : Nat) (record : Record) : Decidable (Storable tkvSize record) :=
  decidable_of_iff
    (0 ≤ record.timestamp.toInt ∧ record.value ≠ [] ∧ 0 ∉ record.value ∧
      semicolon ∉ record.value ∧ newline ∉ record.value ∧
      (convertToTkv record).length + 1 ≤ tkvSize)
    ⟨fun ⟨h1, h2, h3, h4, h5, h6⟩ => ⟨h1, h2, h3, h4, h5, h6⟩,
      fun ⟨h1, h2, h3, h4, h5, h6⟩ => ⟨h1, h2, h3, h4, h5, h6⟩⟩

/-! ## Printing and parsing -/

theorem stringSplit_tkv {a b c : Bytes} (ha : semicolon ∉ a) (hb : semicolon ∉ b)
    (hc : semicolon ∉ c) (ha' : a ≠ []) (hb' : b ≠ []) (hc' : c ≠ []) :
    stringSplit (a ++ semicolon :: (b ++ semicolon :: c)) semicolon = [a, b, c] := by
  have hjoin : a ++ semicolon :: (b ++ semicolon :: c) = [semicolon].intercalate [a, b, c] := by
    simp [List.intercalate]
  rw [stringSplit, hjoin, List.splitOn_intercalate]
  · simp [ha', hb', hc']
  · simp [ha, hb, hc]
  · simp

theorem stringToUint16_printInt (key : UInt16) : stringToUint16 (printInt key.toNat) = key := by
  have hkey := key.toNat_lt
  have hlong : ((key.toNat : Nat) : Int) = (Int64.ofNat key.toNat).toInt :=
    (Int64.toInt_ofNat_of_lt (by omega)).symm
  rw [stringToUint16, hlong, strtoll_printInt]
  apply UInt16.toNat_inj.mp
  rw [← UInt64.toInt64_ofNat', UInt64.toUInt64_toInt64, UInt64.toNat_toUInt16, UInt64.toNat_ofNat']
  omega

/-- Numbers hold no `;`, and no text of a storable record has a byte its readers stop at. -/
theorem not_mem_convertToTkv {record : Record} {b : Byte} (hlow : b.toNat < 45)
    (hvalue : b ∉ record.value) : b ∉ convertToTkv record := by
  have hne : b ≠ semicolon := by
    rintro rfl
    exact absurd hlow (by decide)
  simp only [convertToTkv, tkvText, List.mem_append, List.mem_cons, hne, hvalue, false_or,
    or_false, not_or]
  exact ⟨not_mem_printInt (Or.inl hlow), not_mem_printInt (Or.inl hlow)⟩

theorem stringSplit_recordText {record : Record} (hne : record.value ≠ [])
    (hvalue : semicolon ∉ record.value) : stringSplit (convertToTkv record) semicolon =
      [printInt record.timestamp.toInt, printInt record.key.toNat, record.value] := by
  have hsemi : ∀ i : Int, semicolon ∉ printInt i := fun i => not_mem_printInt (by decide)
  exact stringSplit_tkv (hsemi _) (hsemi _) hvalue (printInt_ne_nil _) (printInt_ne_nil _) hne

theorem stringSplit_convertToTkv {tkvSize : Nat} {record : Record} (h : Storable tkvSize record) :
    stringSplit (convertToTkv record) semicolon =
      [printInt record.timestamp.toInt, printInt record.key.toNat, record.value] :=
  stringSplit_recordText h.value_ne h.value_semicolon

/-- **The text round trip.**  The separators and an empty value are what can spoil it. -/
theorem convertRecord_convertToTkv {record : Record} (hne : record.value ≠ [])
    (hvalue : semicolon ∉ record.value) : convertRecord (convertToTkv record) = some record := by
  rw [convertRecord, stringSplit_recordText hne hvalue]
  simp [stringToUint16_printInt]

theorem convertRecord_text {tkvSize : Nat} {record : Record} (h : Storable tkvSize record) :
    convertRecord (convertToTkv record) = some record :=
  convertRecord_convertToTkv h.value_ne h.value_semicolon

/-- The two printers write one text. -/
theorem createTkv_eq (input : InsertInput) :
    createTkv input = convertToTkv ⟨input.timestamp, input.key, input.value.bytes⟩ := rfl

end Lissandra
