import Mathlib.Data.List.InsertIdx
import Mathlib.Data.List.ReduceOption

/-! # Lists with holes

A list stands for an array of slots whose entries are taken out of it and put back: while an entry
is out, those behind it are one index further to the front.  The array with its holes is a list of
optional entries, and the list is what is left of it (`List.reduceOption`).  A call with an index
meets the slot of this index as long as there is no hole in front of it.
-/
namespace Lissandra

section
variable {α : Type*} {slots : List (Option α)} {k : Nat} {a : α}

/-- No hole before this index. -/
def Filled (slots : List (Option α)) (k : Nat) : Prop := ∀ j < k, slots[j]? ≠ some none

theorem Filled.tail {slot : Option α} (h : Filled (slot :: slots) (k + 1)) : Filled slots k :=
  fun j hj => h (j + 1) (Nat.succ_lt_succ hj)

theorem Filled.head {slot : Option α} (h : Filled (slot :: slots) (k + 1)) :
    ∃ a, slot = some a := by
  cases slot with
  | none => exact absurd rfl (h 0 (Nat.succ_pos k))
  | some a => exact ⟨a, rfl⟩

/-- Reading. -/
theorem getElem?_reduceOption (h : Filled slots (k + 1)) :
    slots.reduceOption[k]? = slots[k]?.join := by
  induction slots generalizing k with
  | nil => rfl
  | cons slot rest ih =>
    obtain ⟨a, rfl⟩ := h.head
    rw [List.reduceOption_cons_of_some]
    cases k with
    | zero => rfl
    | succ k => exact ih h.tail

/-- Taking out. -/
theorem eraseIdx_reduceOption (h : Filled slots (k + 1)) :
    slots.reduceOption.eraseIdx k = (slots.set k none).reduceOption := by
  induction slots generalizing k with
  | nil => rfl
  | cons slot rest ih =>
    obtain ⟨a, rfl⟩ := h.head
    rw [List.reduceOption_cons_of_some]
    cases k with
    | zero => rw [List.eraseIdx_cons_zero, List.set_cons_zero, List.reduceOption_cons_of_none]
    | succ k =>
      rw [List.eraseIdx_cons_succ, List.set_cons_succ, List.reduceOption_cons_of_some, ih h.tail]

/-- Putting back. -/
theorem insertIdx_reduceOption (h : Filled slots k) (hk : slots[k]? = some none) (a : α) :
    slots.reduceOption.insertIdx k a = (slots.set k (some a)).reduceOption := by
  induction slots generalizing k with
  | nil => cases hk
  | cons slot rest ih =>
    cases k with
    | zero =>
      obtain rfl := Option.some.inj hk
      rw [List.reduceOption_cons_of_none, List.insertIdx_zero, List.set_cons_zero,
        List.reduceOption_cons_of_some]
    | succ k =>
      obtain ⟨b, rfl⟩ := h.head
      rw [List.reduceOption_cons_of_some, List.insertIdx_succ_cons, List.set_cons_succ,
        List.reduceOption_cons_of_some, ih h.tail hk]

/-- An entry of the list comes from its slot or from one behind it. -/
theorem exists_slot_of_getElem? (hk : slots.reduceOption[k]? = some a) :
    ∃ i, k ≤ i ∧ slots[i]? = some (some a) := by
  induction slots generalizing k with
  | nil => cases hk
  | cons slot rest ih =>
    cases slot with
    | none =>
      obtain ⟨i, hi, hslot⟩ := ih hk
      exact ⟨i + 1, Nat.le_succ_of_le hi, hslot⟩
    | some b =>
      rw [List.reduceOption_cons_of_some] at hk
      cases k with
      | zero => exact ⟨0, Nat.le_refl 0, hk ▸ rfl⟩
      | succ k =>
        obtain ⟨i, hi, hslot⟩ := ih hk
        exact ⟨i + 1, Nat.succ_le_succ hi, hslot⟩

/-- Behind a hole it is one behind it. -/
theorem exists_slot_of_hole {j : Nat} (hj : j < k) (hhole : slots[j]? = some none)
    (hk : slots.reduceOption[k]? = some a) : ∃ i, k < i ∧ slots[i]? = some (some a) := by
  induction slots generalizing j k with
  | nil => cases hk
  | cons slot rest ih =>
    cases slot with
    | none =>
      rw [List.reduceOption_cons_of_none] at hk
      obtain ⟨i, hi, hslot⟩ := exists_slot_of_getElem? hk
      exact ⟨i + 1, Nat.lt_succ_of_le hi, hslot⟩
    | some b =>
      obtain ⟨k, rfl⟩ := Nat.exists_eq_succ_of_ne_zero (Nat.ne_zero_of_lt hj)
      cases j with
      | zero => cases hhole
      | succ j =>
        obtain ⟨i, hi, hslot⟩ := ih (Nat.lt_of_succ_lt_succ hj) hhole hk
        exact ⟨i + 1, Nat.succ_lt_succ hi, hslot⟩

end

end Lissandra
