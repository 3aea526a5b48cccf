import Lissandra.RecordText

/-! # Strings

`string.c`, with the functions of the standard library that the console reads numbers by.
`string_split_ignore_quotes` has one pointer that goes through the line and one to the start
of a token, and counts the characters of the token; a quote sets the start and the count
anew.  The tokens of a line that is printed with spaces between its words and quoted values
are these words and values (`stringSplitIgnoreQuotes_printed`).
-/
namespace Lissandra

/-! ## Letters -/

/-- `toupper` of one character, in the C locale. -/
def toUpper (b : Byte) : Byte := if 97 ≤ b.toNat ∧ b.toNat ≤ 122 then b - 32 else b

/-- `to_uppercase`. -/
def toUppercase (text : Bytes) : Bytes := text.map toUpper

theorem toNat_toUpper (b : Byte) :
    (toUpper b).toNat = if 97 ≤ b.toNat ∧ b.toNat ≤ 122 then b.toNat - 32 else b.toNat := by
  rw [toUpper]
  by_cases hletter : 97 ≤ b.toNat ∧ b.toNat ≤ 122
  · rw [if_pos hletter, if_pos hletter, UInt8.toNat_sub_of_le]
    · rfl
    · rw [UInt8.le_iff_toNat_le]
      exact le_trans (by decide) hletter.1
  · rw [if_neg hletter, if_neg hletter]

/-- A byte that is no letter is not changed, and no other becomes it. -/
theorem toUpper_eq_iff {b c : Byte} (hc : ¬ (65 ≤ c.toNat ∧ c.toNat ≤ 122)) :
    toUpper b = c ↔ b = c := by
  rw [← UInt8.toNat_inj, ← UInt8.toNat_inj, toNat_toUpper]
  split
  · omega
  · exact Iff.rfl

theorem toUppercase_toUppercase (text : Bytes) :
    toUppercase (toUppercase text) = toUppercase text := by
  have hupper : ∀ b : Byte, toUpper (toUpper b) = toUpper b := by
    intro b
    apply UInt8.toNat_inj.mp
    rw [toNat_toUpper (toUpper b), if_neg]
    rw [toNat_toUpper]
    split
    · omega
    · omega
  rw [toUppercase, toUppercase, List.map_map]
  exact List.map_congr_left fun b _ => hupper b

/-- `string_equals_ignore_case`. -/
def stringEqualsIgnoreCase (actual expected : Bytes) : Bool :=
  toUppercase actual = toUppercase expected

/-! ## Tokens -/

/-- The character at which a token ends outside of quotes. -/
def space : Byte := 32

/-- The character that opens and closes a value. -/
def quote : Byte := 34

/-- A token of this size from `initial` on, if it is not empty. -/
def pushToken (initial : Bytes) (tokenSize : Nat) (tokens : List Bytes) : List Bytes :=
  if initial.take tokenSize = [] then tokens else tokens ++ [initial.take tokenSize]

/-- The loop of `string_split_ignore_quotes`, from `cursor` on. -/
def splitLoop (cursor initial : Bytes) (tokenSize : Nat) (insideQuotes : Bool)
    (tokens : List Bytes) : List Bytes :=
  match cursor with
  | [] => if insideQuotes then tokens else pushToken initial tokenSize tokens
  | c :: rest =>
    if c = space ∧ insideQuotes = false then splitLoop rest rest 0 false
      (pushToken initial tokenSize tokens)
    else if c = quote then
      if insideQuotes then splitLoop rest initial tokenSize false tokens
      else splitLoop rest rest 0 true tokens
    else splitLoop rest initial (tokenSize + 1) insideQuotes tokens

/-- `string_split_ignore_quotes`, which splits at spaces whatever the delimiter is. -/
def stringSplitIgnoreQuotes (input : CString) : List Bytes :=
  splitLoop input.bytes input.bytes 0 false []

/-! ## Numbers -/

/-- What is left where `strtol` stops: the whole text if it finds no digits. -/
def strtolEnd (text : Bytes) : Bytes :=
  let digits := match text.dropWhile isSpace with
    | b :: rest => if b = 45 ∨ b = 43 then rest else b :: rest
    | [] => []
  match digits with
  | d :: _ => if isDigit d then digits.dropWhile isDigit else text
  | [] => text

/-- `string_to_long`. -/
def stringToLong (text : Bytes) : Int64 := strtoll text

/-- `string_to_long_long`. -/
def stringToLongLong (text : Bytes) : Int64 := strtoll text

/-! ## Printing lines -/

/-- A word of a line, or a value between quotes. -/
inductive Token where
  | word (text : Bytes)
  | quoted (text : Bytes)
  deriving DecidableEq

def Token.text : Token → Bytes
  | .word text => text
  | .quoted text => text

/-- Words have no spaces and no quotes, and values no quotes; none is empty. -/
def Token.Plain : Token → Prop
  | .word text => text ≠ [] ∧ space ∉ text ∧ quote ∉ text
  | .quoted text => text ≠ [] ∧ quote ∉ text

def Token.print : Token → Bytes
  | .word text => text
  | .quoted text => quote :: text ++ [quote]

/-- Tokens, one after the other, each with spaces behind it. -/
inductive Printed : List Token → Bytes → Prop
  | nil : Printed [] []
  | last (token : Token) : Printed [token] token.print
  | spaced {tokens : List Token} {line : Bytes} (token : Token) (rest : Printed tokens line) :
      Printed (token :: tokens) (token.print ++ space :: line)
  | spaces {tokens : List Token} {line : Bytes} (rest : Printed tokens line) :
      Printed tokens (space :: line)

theorem Token.Plain.text_ne_nil {token : Token} (h : token.Plain) : token.text ≠ [] := by
  cases token with
  | word text => exact h.1
  | quoted text => exact h.1

section Splitting
variable {text cursor initial line : Bytes} {tokenSize : Nat} {tokens : List Bytes}

theorem splitLoop_word (hspace : space ∉ text) (hquote : quote ∉ text) :
    splitLoop (text ++ cursor) initial tokenSize false tokens =
      splitLoop cursor initial (tokenSize + text.length) false tokens := by
  induction text generalizing tokenSize with
  | nil => rfl
  | cons c text ih =>
    rw [List.mem_cons, not_or] at hspace hquote
    rw [List.cons_append, splitLoop, if_neg fun h => hspace.1 h.1.symm,
      if_neg fun h => hquote.1 h.symm, ih hspace.2 hquote.2, List.length_cons]
    congr 1
    omega

theorem splitLoop_quoted (hquote : quote ∉ text) :
    splitLoop (text ++ cursor) initial tokenSize true tokens =
      splitLoop cursor initial (tokenSize + text.length) true tokens := by
  induction text generalizing tokenSize with
  | nil => rfl
  | cons c text ih =>
    rw [List.mem_cons, not_or] at hquote
    rw [List.cons_append, splitLoop, if_neg (by simp), if_neg fun h => hquote.1 h.symm, ih hquote.2,
      List.length_cons]
    congr 1
    omega

theorem pushToken_zero : pushToken initial 0 tokens = tokens := rfl

theorem pushToken_text {rest : Bytes} (h : text ≠ []) :
    pushToken (text ++ rest) text.length tokens = tokens ++ [text] := by
  rw [pushToken, List.take_left', if_neg h]
  rfl

/-- A token leaves its size, and its text at the start. -/
theorem splitLoop_token {token : Token} (h : token.Plain) :
    ∃ initial, splitLoop (token.print ++ cursor) (token.print ++ cursor) 0 false tokens =
        splitLoop cursor initial token.text.length false tokens ∧
      ∃ rest, initial = token.text ++ rest := by
  cases token with
  | word text =>
    obtain ⟨-, hspace, hquote⟩ := h
    refine ⟨text ++ cursor, ?_, cursor, rfl⟩
    show splitLoop (text ++ cursor) (text ++ cursor) 0 false tokens = _
    rw [splitLoop_word hspace hquote, Nat.zero_add]
    rfl
  | quoted text =>
    obtain ⟨-, hquote⟩ := h
    -- the text starts behind the first quote, and the second one does not count
    refine ⟨text ++ quote :: cursor, ?_, quote :: cursor, rfl⟩
    show splitLoop (quote :: (text ++ [quote] ++ cursor)) _ 0 false tokens = _
    rw [splitLoop, if_neg (by decide), if_pos rfl, if_neg (by simp), List.append_assoc,
      List.singleton_append, splitLoop_quoted hquote, splitLoop, if_neg (by decide),
      if_pos rfl, if_pos rfl, Nat.zero_add]
    rfl

theorem splitLoop_printed {line : Bytes} {printed : List Token} (hline : Printed printed line)
    (hplain : ∀ token ∈ printed, token.Plain) :
    splitLoop line line 0 false tokens = tokens ++ printed.map Token.text := by
  induction hline generalizing tokens with
  | nil =>
    show pushToken [] 0 tokens = _
    rw [pushToken_zero, List.map_nil, List.append_nil]
  | last token =>
    have htoken := hplain token (List.mem_singleton.mpr rfl)
    obtain ⟨initial, hloop, rest, rfl⟩ := @splitLoop_token [] tokens token htoken
    rw [List.append_nil] at hloop
    rw [hloop]
    show pushToken (token.text ++ rest) token.text.length tokens = _
    rw [pushToken_text htoken.text_ne_nil]
    rfl
  | @spaced printed line token _ ih =>
    have htoken := hplain token List.mem_cons_self
    obtain ⟨initial, hloop, rest, rfl⟩ := @splitLoop_token (space :: line) tokens token htoken
    rw [hloop, splitLoop, if_pos ⟨rfl, rfl⟩, pushToken_text htoken.text_ne_nil,
      ih fun other hmem => hplain other (List.mem_cons_of_mem _ hmem), List.append_assoc]
    rfl
  | @spaces printed line _ ih =>
    -- a space before a token pushes none
    rw [splitLoop, if_pos ⟨rfl, rfl⟩, pushToken_zero, ih hplain]

end Splitting

/-- **Tokens come out as they were printed.** -/
theorem stringSplitIgnoreQuotes_printed {line : CString} {printed : List Token}
    (hline : Printed printed line.bytes) (hplain : ∀ token ∈ printed, token.Plain) :
    stringSplitIgnoreQuotes line = printed.map Token.text := by
  unfold stringSplitIgnoreQuotes
  rw [splitLoop_printed hline hplain, List.nil_append]

end Lissandra
