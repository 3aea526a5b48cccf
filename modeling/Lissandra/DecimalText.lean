import Lissandra.ByteCodec
import Mathlib.Data.Int.Order.Basic

/-! # Numbers as decimal text

What `printf("%lld")` writes and what `strtoll(_, NULL, 10)` reads: leading blanks, a
sign, digits up to the first byte that is none, the result clamped to 64 bits.  Printing
is defined by recursion on a bound so that it evaluates; `decimal_step` is the equation
to use.  `parseInt_printInt` is the round trip, and with it printing is injective: two
numbers can be compared by comparing their texts.
-/
namespace Lissandra

/-! ## Printing -/

/-- The character of a digit. -/
def digitByte (d : Nat) : Byte := UInt8.ofNat (48 + d)

/-- The digits of `n`, of which there are at most `bound`. -/
def decimalAux : Nat → Nat → Bytes
  | 0, _ => []
  | bound + 1, n =>
    if n < 10 then [digitByte n] else decimalAux bound (n / 10) ++ [digitByte (n % 10)]

/-- `n` in base ten. -/
def decimal (n : Nat) : Bytes := decimalAux (n + 1) n

/-- `%lld`. -/
def printInt (i : Int) : Bytes := if i < 0 then 45 :: decimal i.natAbs else decimal i.natAbs

theorem decimalAux_eq {bound n : Nat} (h : n < bound) : decimalAux bound n = decimal n := by
  induction n using Nat.strong_induction_on generalizing bound with
  | _ n ih =>
    obtain ⟨bound, rfl⟩ : ∃ b, bound = b + 1 := ⟨bound - 1, by omega⟩
    rw [decimal, decimalAux, decimalAux]
    by_cases hn : n < 10
    · rw [if_pos hn, if_pos hn]
    · have hdiv : n / 10 < n := Nat.div_lt_self (by omega) (by omega)
      rw [if_neg hn, if_neg hn, ih _ hdiv (by omega), ih _ hdiv hdiv]

theorem decimal_step (n : Nat) :
    decimal n = if n < 10 then [digitByte n] else decimal (n / 10) ++ [digitByte (n % 10)] := by
  by_cases hn : n < 10
  · simp [decimal, decimalAux, hn]
  · have hdiv : n / 10 < n := Nat.div_lt_self (by omega) (by omega)
    rw [if_neg hn, decimal, decimalAux, if_neg hn, decimalAux_eq hdiv]

/-! ## Parsing -/

/-- `isspace`. -/
def isSpace (b : Byte) : Bool := b = 32 || (9 ≤ b && b ≤ 13)

def isDigit (b : Byte) : Bool := 48 ≤ b && b ≤ 57

/-- The number that the leading digits stand for, after `acc`. -/
def digitsValue : Nat → Bytes → Nat
  | acc, [] => acc
  | acc, b :: bs => if isDigit b then digitsValue (10 * acc + (b.toNat - 48)) bs else acc

/-- The number at the start of a text. -/
def parseInt (text : Bytes) : Int :=
  match text.dropWhile isSpace with
  | [] => 0
  | b :: rest =>
    if b = 45 then -(digitsValue 0 rest : Int)
    else if b = 43 then digitsValue 0 rest
    else digitsValue 0 (b :: rest)

/-- `strtoll` in base ten. -/
def strtoll (text : Bytes) : Int64 := Int64.ofIntClamp (parseInt text)

/-! ## The round trip -/

theorem digitByte_toNat {d : Nat} (h : d < 10) : (digitByte d).toNat = 48 + d := by
  rw [digitByte, UInt8.toNat_ofNat']
  omega

theorem isDigit_digitByte {d : Nat} (h : d < 10) : isDigit (digitByte d) = true := by
  have := digitByte_toNat h
  simp only [isDigit, Bool.and_eq_true, decide_eq_true_eq, UInt8.le_iff_toNat_le, this]
  exact ⟨Nat.le_add_right 48 d, by change 48 + d ≤ 57; omega⟩

theorem isDigit_of_mem_decimal {n : Nat} {b : Byte} (h : b ∈ decimal n) : isDigit b = true := by
  induction n using Nat.strong_induction_on with
  | _ n ih =>
    rw [decimal_step] at h
    split at h
    · rw [List.mem_singleton.mp h]
      exact isDigit_digitByte ‹_›
    · rcases List.mem_append.mp h with h | h
      · exact ih _ (Nat.div_lt_self (by omega) (by omega)) h
      · rw [List.mem_singleton.mp h]
        exact isDigit_digitByte (Nat.mod_lt n (by omega))

theorem decimal_ne_nil (n : Nat) : decimal n ≠ [] := by
  rw [decimal_step]
  split <;> simp

/-- Reading digits resumes where it stopped, so a number is read digit by digit. -/
theorem digitsValue_append {digits rest : Bytes} (h : ∀ b ∈ digits, isDigit b = true) (acc : Nat) :
    digitsValue acc (digits ++ rest) = digitsValue (digitsValue acc digits) rest := by
  induction digits generalizing acc with
  | nil => rfl
  | cons b bs ih =>
    have hb : isDigit b = true := h b List.mem_cons_self
    rw [List.cons_append, digitsValue, digitsValue, if_pos hb, if_pos hb]
    exact ih (fun c hc => h c (List.mem_cons_of_mem _ hc)) _

theorem digitsValue_decimal (n : Nat) : digitsValue 0 (decimal n) = n := by
  induction n using Nat.strong_induction_on with
  | _ n ih =>
    rw [decimal_step]
    split
    · rename_i hn
      simp only [digitsValue, isDigit_digitByte hn, if_true, digitByte_toNat hn]
      omega
    · rename_i hn
      have hmod : n % 10 < 10 := Nat.mod_lt n (by omega)
      rw [digitsValue_append fun b hb => isDigit_of_mem_decimal hb,
        ih _ (Nat.div_lt_self (by omega) (by omega))]
      simp only [digitsValue, isDigit_digitByte hmod, if_true, digitByte_toNat hmod]
      omega

theorem isDigit_not_space {b : Byte} (h : isDigit b = true) :
    isSpace b = false ∧ b ≠ 45 ∧ b ≠ 43 := by
  simp only [isDigit, Bool.and_eq_true, decide_eq_true_eq, UInt8.le_iff_toNat_le] at h
  obtain ⟨hlow, -⟩ := h
  have h48 : 48 ≤ b.toNat := hlow
  refine ⟨?_, ?_, ?_⟩
  · simp only [isSpace, Bool.or_eq_false_iff, Bool.and_eq_false_iff, decide_eq_false_iff_not,
      UInt8.le_iff_toNat_le]
    refine ⟨?_, Or.inr ?_⟩
    · rintro rfl
      exact absurd h48 (by decide)
    · intro h13
      have : b.toNat ≤ 13 := h13
      omega
  · rintro rfl
    exact absurd h48 (by decide)
  · rintro rfl
    exact absurd h48 (by decide)

theorem parseInt_decimal (n : Nat) : parseInt (decimal n) = n := by
  cases hd : decimal n with
  | nil => exact absurd hd (decimal_ne_nil n)
  | cons b rest =>
    have hb : isDigit b = true := isDigit_of_mem_decimal (n := n)
      (by rw [hd]; exact List.mem_cons_self)
    obtain ⟨hspace, hminus, hplus⟩ := isDigit_not_space hb
    have hdrop : (b :: rest).dropWhile isSpace = b :: rest := by simp [hspace]
    simp only [parseInt, hdrop, if_neg hminus, if_neg hplus]
    rw [← hd, digitsValue_decimal]

/-- **What is printed is read back.** -/
@[simp] theorem parseInt_printInt (i : Int) : parseInt (printInt i) = i := by
  rw [printInt]
  split
  · rename_i hneg
    have hdrop : (45 :: decimal i.natAbs).dropWhile isSpace = 45 :: decimal i.natAbs := by
      rw [List.dropWhile_cons_of_neg]
      decide
    simp only [parseInt, hdrop, if_true, digitsValue_decimal]
    omega
  · rw [parseInt_decimal]
    omega

@[simp] theorem strtoll_printInt (x : Int64) : strtoll (printInt x.toInt) = x := by
  rw [strtoll, parseInt_printInt, Int64.ofIntClamp_toInt]

theorem printInt_injective {i j : Int} (h : printInt i = printInt j) : i = j := by
  rw [← parseInt_printInt i, h, parseInt_printInt]

/-! ## The characters of a number -/

theorem printInt_ne_nil (i : Int) : printInt i ≠ [] := by
  rw [printInt]
  split
  · exact List.cons_ne_nil _ _
  · exact decimal_ne_nil _

/-- A printed number has no byte below the minus sign and none above the digits, so no
NUL, no newline and no separator such as `;`. -/
theorem mem_printInt {i : Int} {b : Byte} (h : b ∈ printInt i) : 45 ≤ b.toNat ∧ b.toNat ≤ 57 := by
  have digit : ∀ {c : Byte}, c ∈ decimal i.natAbs → 45 ≤ c.toNat ∧ c.toNat ≤ 57 := by
    intro c hc
    have hdig := isDigit_of_mem_decimal hc
    simp only [isDigit, Bool.and_eq_true, decide_eq_true_eq, UInt8.le_iff_toNat_le] at hdig
    have h48 : 48 ≤ c.toNat := hdig.1
    exact ⟨by omega, hdig.2⟩
  rw [printInt] at h
  split at h
  · rcases List.mem_cons.mp h with rfl | h
    · decide
    · exact digit h
  · exact digit h

theorem not_mem_printInt {i : Int} {b : Byte} (h : b.toNat < 45 ∨ 57 < b.toNat) :
    b ∉ printInt i := by
  intro hb
  have := mem_printInt hb
  omega

end Lissandra
