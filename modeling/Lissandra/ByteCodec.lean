import Mathlib.Algebra.Ring.Int.Defs
import Mathlib.Algebra.Ring.Nat
import Mathlib.Data.List.TakeWhile

/-! # Scalars and strings in a byte buffer

What a C program does with `memcpy` and pointer casts, as a small library: the
little-endian bytes of a number, codecs of fixed width (`ScalarCodec`), strings
without a NUL (`CString`), and reads of a buffer at an explicit offset
(`bytesAt`, `scalarAt`, `stringAt`).  A read outside the buffer is `none`.

Every read has one lemma of the same shape: if what is left of the buffer at the
offset starts with the field, the read gives the field, and past the field the rest is
left.  A message of any number of fields is read by using it once for each field.
-/
namespace Lissandra

abbrev Byte := UInt8
abbrev Bytes := List UInt8

/-! ## Little-endian numbers -/

/-- The low `k` bytes of `n`, least significant first. -/
def leBytes : Nat → Nat → Bytes
  | 0, _ => []
  | k + 1, n => UInt8.ofNat n :: leBytes k (n / 256)

/-- The number a list of bytes spells, least significant first. -/
def leNat : Bytes → Nat
  | [] => 0
  | b :: bs => b.toNat + 256 * leNat bs

@[simp] theorem length_leBytes (k n : Nat) : (leBytes k n).length = k := by
  induction k generalizing n with
  | zero => rfl
  | succ k ih => simp [leBytes, ih]

theorem leNat_leBytes (k n : Nat) : leNat (leBytes k n) = n % 256 ^ k := by
  induction k generalizing n with
  | zero => simp [leBytes, leNat, Nat.mod_one]
  | succ k ih =>
    have h8 : (UInt8.ofNat n).toNat = n % 256 := by simp
    rw [leBytes, leNat, ih, h8, Nat.pow_succ', Nat.mod_mul]

/-! ## Codecs of fixed width -/

/-- A type whose values are copied as `width` bytes and read back from them.
`decode` is partial: not every byte is a value of an enumeration. -/
structure ScalarCodec (α : Type) where
  width : Nat
  encode : α → Bytes
  decode : Bytes → Option α
  length_encode : ∀ a, (encode a).length = width
  decode_encode : ∀ a, decode (encode a) = some a

attribute [simp] ScalarCodec.length_encode

/-- `uint16_t`. -/
def uint16Codec : ScalarCodec UInt16 where
  width := 2
  encode x := leBytes 2 x.toNat
  decode bs := some (UInt16.ofNat (leNat bs))
  length_encode _ := length_leBytes 2 _
  decode_encode x := by
    have hx := x.toNat_lt
    rw [leNat_leBytes, Nat.mod_eq_of_lt (by omega), UInt16.ofNat_toNat]

/-- `uint32_t`. -/
def uint32Codec : ScalarCodec UInt32 where
  width := 4
  encode x := leBytes 4 x.toNat
  decode bs := some (UInt32.ofNat (leNat bs))
  length_encode _ := length_leBytes 4 _
  decode_encode x := by
    have hx := x.toNat_lt
    rw [leNat_leBytes, Nat.mod_eq_of_lt (by omega), UInt32.ofNat_toNat]

/-- `int`, in two's complement. -/
def int32Codec : ScalarCodec Int32 where
  width := 4
  encode x := leBytes 4 x.toUInt32.toNat
  decode bs := some (UInt32.ofNat (leNat bs)).toInt32
  length_encode _ := length_leBytes 4 _
  decode_encode x := by
    have hx := x.toUInt32.toNat_lt
    rw [leNat_leBytes, Nat.mod_eq_of_lt (by omega), UInt32.ofNat_toNat]
    rfl

/-- `long` and `long long`, in two's complement. -/
def int64Codec : ScalarCodec Int64 where
  width := 8
  encode x := leBytes 8 x.toUInt64.toNat
  decode bs := some (UInt64.ofNat (leNat bs)).toInt64
  length_encode _ := length_leBytes 8 _
  decode_encode x := by
    have hx := x.toUInt64.toNat_lt
    rw [leNat_leBytes, Nat.mod_eq_of_lt (by omega), UInt64.ofNat_toNat]
    rfl

/-- `bool`: any byte but zero reads as true. -/
def boolCodec : ScalarCodec Bool where
  width := 1
  encode b := [if b then 1 else 0]
  decode bs := some (bs != [0])
  length_encode _ := rfl
  decode_encode b := by cases b <;> decide

@[simp] theorem uint16Codec_width : uint16Codec.width = 2 := rfl
@[simp] theorem uint32Codec_width : uint32Codec.width = 4 := rfl
@[simp] theorem int32Codec_width : int32Codec.width = 4 := rfl
@[simp] theorem int64Codec_width : int64Codec.width = 8 := rfl
@[simp] theorem boolCodec_width : boolCodec.width = 1 := rfl

/-! ## Strings -/

/-- What a `char*` of the program points to: the bytes before the NUL. -/
structure CString where
  bytes : Bytes
  noNul : 0 ∉ bytes
  deriving DecidableEq

namespace CString

/-- `strlen`. -/
def strlen (s : CString) : Nat := s.bytes.length

/-- The `strlen + 1` bytes that `memcpy` moves: the text and its NUL. -/
def terminated (s : CString) : Bytes := s.bytes ++ [0]

@[simp] theorem length_terminated (s : CString) : s.terminated.length = s.strlen + 1 := by
  simp [terminated, strlen]

theorem nul_not_mem_takeWhile (buf : Bytes) : 0 ∉ buf.takeWhile (· ≠ 0) :=
  fun h => by simpa using List.mem_takeWhile_imp h

/-- The string of a literal. -/
def ofBytes (bytes : Bytes) : CString := ⟨bytes.takeWhile (· ≠ 0), nul_not_mem_takeWhile bytes⟩

/-- The string at the start of a buffer, when the buffer has its NUL. -/
def ofBuffer (buf : Bytes) : Option CString :=
  if 0 ∈ buf then
    some ⟨buf.takeWhile (· ≠ 0), nul_not_mem_takeWhile buf⟩
  else none

theorem takeWhile_terminated (s : CString) (rest : Bytes) :
    (s.terminated ++ rest).takeWhile (· ≠ 0) = s.bytes := by
  rw [terminated, List.append_assoc, List.takeWhile_append_of_pos]
  · simp
  · intro b hb
    exact decide_eq_true fun h => s.noNul (h ▸ hb)

/-- A copied string is read back, whatever follows its NUL. -/
theorem ofBuffer_terminated_append (s : CString) (rest : Bytes) :
    ofBuffer (s.terminated ++ rest) = some s := by
  have hnul : 0 ∈ s.terminated ++ rest := by simp [terminated]
  rw [ofBuffer, if_pos hnul]
  congr 1
  cases s
  simp only [CString.mk.injEq]
  exact takeWhile_terminated _ rest

@[simp] theorem ofBuffer_terminated (s : CString) : ofBuffer s.terminated = some s := by
  simpa using ofBuffer_terminated_append s []

end CString

/-- A text without a NUL is the string that a buffer with it holds. -/
theorem bytes_ofBytes {bytes : Bytes} (h : 0 ∉ bytes) : (CString.ofBytes bytes).bytes = bytes := by
  rw [CString.ofBytes, List.takeWhile_eq_self_iff]
  intro b hb
  exact decide_eq_true fun hzero => h (hzero ▸ hb)

/-! ## Reads at an offset -/

/-- `memcpy(_, from + offset, len)`. -/
def bytesAt (src : Bytes) (offset len : Nat) : Option Bytes :=
  if len ≤ (src.drop offset).length then some ((src.drop offset).take len) else none

/-- `*((T*) (from + offset))`. -/
def scalarAt {α : Type} (c : ScalarCodec α) (src : Bytes) (offset : Nat) : Option α :=
  (bytesAt src offset c.width).bind c.decode

/-- `memcpy` of `len` bytes into a fresh `char*`. -/
def stringAt (src : Bytes) (offset len : Nat) : Option CString :=
  (bytesAt src offset len).bind CString.ofBuffer

section Reads
variable {src field rest : Bytes} {offset : Nat}

theorem bytesAt_of_drop (h : src.drop offset = field ++ rest) :
    bytesAt src offset field.length = some field := by
  rw [bytesAt, h, if_pos (by simp)]
  simp

theorem scalarAt_of_drop {α : Type} {c : ScalarCodec α} {a : α}
    (h : src.drop offset = c.encode a ++ rest) : scalarAt c src offset = some a := by
  have hb := bytesAt_of_drop h
  rw [c.length_encode] at hb
  rw [scalarAt, hb]
  exact c.decode_encode a

theorem stringAt_of_drop {s : CString} (h : src.drop offset = s.terminated ++ rest) :
    stringAt src offset (s.strlen + 1) = some s := by
  have hb := bytesAt_of_drop h
  rw [s.length_terminated] at hb
  rw [stringAt, hb]
  exact s.ofBuffer_terminated

/-- The cursor moves past a field it has read. -/
theorem drop_add_of_drop {α : Type} {src field rest : List α} {offset n : Nat}
    (h : src.drop offset = field ++ rest) (hn : n = field.length) :
    src.drop (offset + n) = rest := by
  rw [hn, ← List.drop_drop, h, List.drop_left]

theorem drop_string {s : CString} (h : src.drop offset = s.terminated ++ rest) :
    src.drop (offset + (s.strlen + 1)) = rest :=
  drop_add_of_drop h s.length_terminated.symm

theorem drop_scalar {α : Type} {c : ScalarCodec α} {a : α}
    (h : src.drop offset = c.encode a ++ rest) : src.drop (offset + c.width) = rest :=
  drop_add_of_drop h (c.length_encode a).symm

end Reads

end Lissandra
