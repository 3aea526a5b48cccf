import Lissandra.RecordText

/-! # The main memory of a memory node

`g_main_memory` is one array of bytes cut into `g_total_page_count` pages of
`g_total_page_size` bytes.  A page holds one C string: the text of a record, or `null`
when it is free; nothing else says so.  The functions of `memory_utils.c` write and read
these strings in place.

What one page says is `page`.  As long as the pages lie in the array and every page holds
the NUL that ends its string (`Formatted`), writing a text that fits into one page leaves
the others alone (`Formatted.strcpy`), and from then on the array need not be opened
again.
-/
namespace Lissandra

/-! ## The array -/

/-- `g_main_memory`, `g_total_page_size` and `g_total_page_count`. -/
structure MainMemory where
  bytes : Bytes
  totalPageSize : Nat
  totalPageCount : Nat
  deriving DecidableEq

/-- The mark of a free page. -/
def null : Bytes := [110, 117, 108, 108]

namespace MainMemory
variable (memory : MainMemory)

/-- The string at `g_main_memory + index`. -/
def stringAt (index : Nat) : Bytes := (memory.bytes.drop index).takeWhile (· ≠ 0)

/-- `strcpy(g_main_memory + index, text)`. -/
def strcpy (index : Nat) (text : Bytes) : MainMemory :=
  { memory with
    bytes := memory.bytes.take index ++ text ++ 0 :: memory.bytes.drop (index + text.length + 1) }

/-- The string of the `i`th page. -/
def page (i : Nat) : Bytes := memory.stringAt (i * memory.totalPageSize)

end MainMemory

/-- The text that `memory_insert` and `modify_memory_by_index` put together. -/
def memoryText (timestamp : Int64) (key : Int) (value : Bytes) : Bytes :=
  let strTstamp := printInt timestamp.toInt
  let strTstamp := strTstamp ++ [semicolon]
  let strTstamp := strTstamp ++ printInt key
  let strTstamp := strTstamp ++ [semicolon]
  strTstamp ++ value

/-- The first page, from `i` on, that is free. -/
def findNull (memory : MainMemory) : Nat → Nat → Option Nat
  | 0, _ => none
  | remaining + 1, i =>
    if memory.page i = null then some i else findNull memory remaining (i + 1)

/-- `memory_insert`: the memory and the index of the page written, -1 if none is free. -/
def memoryInsert (memory : MainMemory) (timestamp : Int64) (key : Int) (value : Bytes) :
    MainMemory × Int :=
  match findNull memory memory.totalPageCount 0 with
  | some i =>
    (memory.strcpy (i * memory.totalPageSize) (memoryText timestamp key value),
      (i * memory.totalPageSize : Nat))
  | none => (memory, -1)

/-- `memory_full`. -/
def memoryFull (memory : MainMemory) : Bool := (findNull memory memory.totalPageCount 0).isNone

/-- `memory_var_t`, without the member nothing asks for. -/
inductive MemoryVar where
  | timestamp
  | key
  | value
  deriving DecidableEq, Repr

/-- The place of a piece in the text. -/
def MemoryVar.position : MemoryVar → Nat
  | .timestamp => 0
  | .key => 1
  | .value => 2

/-- `main_memory_values`.  Where the text has no such piece the array ends with `NULL`, or
before. -/
def mainMemoryValues (memory : MainMemory) (index : Int) (type : MemoryVar) : Option Bytes :=
  (stringSplit (memory.stringAt index.toNat) semicolon)[type.position]?

/-- `modify_memory_by_index`, where `now` is what `get_timestamp` says. -/
def modifyMemoryByIndex (memory : MainMemory) (now : Int64) (index : Int) (key : Int)
    (value : Bytes) : MainMemory :=
  memory.strcpy index.toNat (memoryText now key value)

/-! ## Page by page -/

namespace MainMemory

/-- The pages lie in the array, `null` fits into a page, and the string of every page ends
in the page. -/
structure Formatted (memory : MainMemory) : Prop where
  fits : memory.totalPageCount * memory.totalPageSize ≤ memory.bytes.length
  room : null.length < memory.totalPageSize
  ends : ∀ i < memory.totalPageCount, (memory.page i).length < memory.totalPageSize

variable {memory : MainMemory} {i j : Nat} {text : Bytes}

@[simp] theorem strcpy_totalPageSize (index : Nat) (text : Bytes) :
    (memory.strcpy index text).totalPageSize = memory.totalPageSize := rfl

@[simp] theorem strcpy_totalPageCount (index : Nat) (text : Bytes) :
    (memory.strcpy index text).totalPageCount = memory.totalPageCount := rfl

/-- A string that ends before a cut does not see what is behind it. -/
theorem takeWhile_take_append {α : Type} {p : α → Bool} {l m : List α} {n : Nat}
    (h : (l.takeWhile p).length < n) (hn : n ≤ l.length) :
    (l.take n ++ m).takeWhile p = l.takeWhile p := by
  induction l generalizing n with
  | nil =>
    obtain rfl : n = 0 := Nat.le_zero.mp hn
    exact absurd h (Nat.not_lt_zero _)
  | cons a l ih =>
    cases n with
    | zero => exact absurd h (Nat.not_lt_zero _)
    | succ n =>
      rw [List.take_succ_cons, List.cons_append]
      by_cases ha : p a
      · rw [List.takeWhile_cons_of_pos ha] at h
        rw [List.takeWhile_cons_of_pos ha, List.takeWhile_cons_of_pos ha,
          ih (Nat.lt_of_succ_lt_succ h) (Nat.le_of_succ_le_succ hn)]
      · rw [List.takeWhile_cons_of_neg ha, List.takeWhile_cons_of_neg ha]

/-- A string that is behind what is written. -/
theorem stringAt_strcpy_of_le {index other : Nat} (hindex : index ≤ memory.bytes.length)
    (h : index + text.length + 1 ≤ other) :
    (memory.strcpy index text).stringAt other = memory.stringAt other := by
  obtain ⟨rest, rfl⟩ := Nat.exists_eq_add_of_le h
  have hlen : (memory.bytes.take index ++ text ++ [0]).length = index + text.length + 1 := by
    simp [hindex, Nat.add_assoc]
  have hsplit : memory.bytes.take index ++ text ++ 0 ::
    memory.bytes.drop (index + text.length + 1) =
      (memory.bytes.take index ++ text ++ [0]) ++ memory.bytes.drop (index + text.length + 1) := by
    simp
  rw [stringAt, strcpy, hsplit, ← hlen, List.drop_length_add_append, List.drop_drop, hlen]
  rfl

/-- A string that ends before what is written. -/
theorem stringAt_strcpy_of_lt {index other : Nat} (hindex : index ≤ memory.bytes.length)
    (hle : other ≤ index) (h : other + (memory.stringAt other).length < index) :
    (memory.strcpy index text).stringAt other = memory.stringAt other := by
  have hother : other ≤ (memory.bytes.take index).length := by
    rw [List.length_take]
    omega
  rw [stringAt, strcpy, List.append_assoc, List.drop_append_of_le_length hother, List.drop_take]
  refine takeWhile_take_append ?_ ?_
  · change (memory.stringAt other).length < index - other
    omega
  · rw [List.length_drop]
    omega

theorem stringAt_strcpy_self {index : Nat} (hindex : index ≤ memory.bytes.length)
    (hnul : 0 ∉ text) : (memory.strcpy index text).stringAt index = text := by
  have hlen : (memory.bytes.take index).length = index := by simp [hindex]
  rw [stringAt, strcpy, List.append_assoc, List.drop_left' hlen, List.takeWhile_append_of_pos]
  · simp
  · intro b hb
    have : b ≠ 0 := fun h0 => hnul (h0 ▸ hb)
    simpa using this

theorem length_strcpy {index : Nat} (h : index + text.length + 1 ≤ memory.bytes.length) :
    (memory.strcpy index text).bytes.length = memory.bytes.length := by
  simp only [strcpy, List.length_append, List.length_take, List.length_cons, List.length_drop]
  omega

/-- A page ends before a later one starts. -/
theorem pageEnd_le_of_lt {size : Nat} (h : i < j) : i * size + size ≤ j * size := by
  rw [← Nat.succ_mul]
  exact Nat.mul_le_mul_right _ h

/-- A page ends inside the memory. -/
theorem Formatted.pageEnd_le (h : memory.Formatted) (hi : i < memory.totalPageCount) :
    i * memory.totalPageSize + memory.totalPageSize ≤ memory.bytes.length :=
  (pageEnd_le_of_lt hi).trans h.fits

/-- **Writing one page.** -/
theorem Formatted.strcpy (h : memory.Formatted) (hi : i < memory.totalPageCount)
    (hlen : text.length < memory.totalPageSize) (hnul : 0 ∉ text) :
    (memory.strcpy (i * memory.totalPageSize) text).Formatted ∧
      ∀ j < memory.totalPageCount, (memory.strcpy (i * memory.totalPageSize) text).page j =
        if j = i then text else memory.page j := by
  have hend := h.pageEnd_le hi
  have hpage : ∀ j < memory.totalPageCount, (memory.strcpy (i * memory.totalPageSize) text).page j =
      if j = i then text else memory.page j := by
    intro j hj
    rcases Nat.lt_trichotomy j i with hlt | rfl | hgt
    · have hends := h.ends j hj
      have hbefore := @pageEnd_le_of_lt _ _ memory.totalPageSize hlt
      rw [if_neg hlt.ne, page, strcpy_totalPageSize, stringAt_strcpy_of_lt (by omega) (by omega)]
      · rfl
      · change j * memory.totalPageSize + (memory.page j).length < i * memory.totalPageSize
        omega
    · rw [if_pos rfl, page, strcpy_totalPageSize, stringAt_strcpy_self (by omega) hnul]
    · have hbehind := @pageEnd_le_of_lt _ _ memory.totalPageSize hgt
      rw [if_neg hgt.ne', page, strcpy_totalPageSize, stringAt_strcpy_of_le (by omega) (by omega)]
      rfl
  refine ⟨⟨?_, h.room, fun j hj => ?_⟩, hpage⟩
  · rw [length_strcpy (by omega)]
    exact h.fits
  · rw [hpage j hj, strcpy_totalPageSize]
    split
    · exact hlen
    · exact h.ends j hj

end MainMemory

/-! ## Free pages -/

theorem nul_not_mem_null : 0 ∉ null := by decide

theorem findNull_some {memory : MainMemory} {remaining i j : Nat}
    (h : findNull memory remaining i = some j) :
    i ≤ j ∧ j < i + remaining ∧ memory.page j = null := by
  induction remaining generalizing i with
  | zero => exact absurd h (by simp [findNull])
  | succ remaining ih =>
    rw [findNull] at h
    split at h
    · obtain rfl := Option.some.inj h
      exact ⟨le_rfl, by omega, ‹_›⟩
    · obtain ⟨hle, hlt, hnull⟩ := ih h
      exact ⟨by omega, by omega, hnull⟩

theorem findNull_none {memory : MainMemory} {remaining i : Nat}
    (h : findNull memory remaining i = none) {j : Nat} (hle : i ≤ j) (hlt : j < i + remaining) :
    memory.page j ≠ null := by
  induction remaining generalizing i with
  | zero => omega
  | succ remaining ih =>
    rw [findNull] at h
    split at h
    · exact absurd h (by simp)
    · rcases Nat.eq_or_lt_of_le hle with rfl | hlt'
      · assumption
      · exact ih h hlt' (by omega)

/-- A record in a page is not mistaken for a free page. -/
theorem memoryText_ne_null (timestamp : Int64) (key : Int) (value : Bytes) :
    memoryText timestamp key value ≠ null := by
  intro h
  have hmem : semicolon ∈ memoryText timestamp key value := by simp [memoryText]
  rw [h] at hmem
  exact absurd hmem (by decide)

theorem nul_not_mem_memoryText (timestamp : Int64) (key : Int) {value : Bytes} (h : 0 ∉ value) :
    0 ∉ memoryText timestamp key value := by
  have hnumber : ∀ i : Int, (0 : Byte) ∉ printInt i := fun i => not_mem_printInt (by decide)
  have hsemicolon : (0 : Byte) ≠ semicolon := by decide
  simp [memoryText, hnumber, hsemicolon, h]

theorem memoryText_eq (timestamp : Int64) (key : UInt16) (value : Bytes) :
    memoryText timestamp key.toNat value = tkvText timestamp key value := by
  simp [memoryText, tkvText]

end Lissandra
