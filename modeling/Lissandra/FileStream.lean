import Lissandra.ByteCodec

/-! # Reading a file through a buffer

`stdio` as far as a reader needs it, as a small library: a stream is its bytes, a
position and the end-of-file flag, which a short `fread` sets and `fseek` clears.  A
`fread` overwrites the start of its buffer and leaves the rest, so after a read of nothing
the buffer still holds what was read before (`overwrite_nil`).
-/
namespace Lissandra

structure FileStream where
  content : Bytes
  position : Nat
  eof : Bool

/-- `fopen(_, "rb")`. -/
def fopen (content : Bytes) : FileStream := ⟨content, 0, false⟩

/-- `fread(_, 1, count, file)`: the bytes read, and the stream after them. -/
def fread (count : Nat) (file : FileStream) : Bytes × FileStream :=
  let bytes := (file.content.drop file.position).take count
  (bytes, { file with
    position := file.position + bytes.length
    eof := file.eof || decide (bytes.length < count) })

/-- `fseek(file, position, SEEK_SET)`. -/
def fseek (file : FileStream) (position : Nat) : FileStream :=
  { file with position, eof := false }

/-- A buffer after `bytes` were read into it. -/
def overwrite (buffer bytes : Bytes) : Bytes := bytes ++ buffer.drop bytes.length

/-- The string a buffer holds: what `strlen` and the other string functions see. -/
def cstr (buffer : Bytes) : Bytes := buffer.takeWhile (· ≠ 0)

@[simp] theorem overwrite_nil (buffer : Bytes) : overwrite buffer [] = buffer := rfl

/-- A text with its NUL in front of anything. -/
theorem cstr_append {t : Bytes} (h : 0 ∉ t) (rest : Bytes) : cstr (t ++ 0 :: rest) = t := by
  rw [cstr, List.takeWhile_append_of_pos]
  · simp
  · intro b hb
    exact decide_eq_true fun hz => h (hz ▸ hb)

/-- A read that reaches past a text and its NUL brings the text into the buffer. -/
theorem cstr_overwrite_take {t rest buffer : Bytes} {count : Nat} (h : 0 ∉ t)
    (hcount : t.length + 1 ≤ count) :
    cstr (overwrite buffer ((t ++ 0 :: rest).take count)) = t := by
  obtain ⟨extra, rfl⟩ := Nat.exists_eq_add_of_le hcount
  have htake : (t ++ 0 :: rest).take (t.length + 1 + extra) = t ++ 0 :: rest.take extra := by
    rw [Nat.add_assoc, List.take_length_add_append, Nat.add_comm 1, List.take_succ_cons]
  rw [htake, overwrite, List.append_assoc, List.cons_append]
  exact cstr_append h _

end Lissandra
