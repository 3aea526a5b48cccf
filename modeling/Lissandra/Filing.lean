import Mathlib.Data.List.InsertIdx
import Mathlib.Data.List.ReduceOption
import Mathlib.Data.List.Perm.Basic
import Mathlib.Logic.Function.Basic

/-! # Filing by label

Objects have labels, and every label has a list for the objects with this label, each of
them once (`Filing`).  An object that gets a label is put into the list of the label and
taken out of the list it was in (`Filing.put`, `Filing.move`, `Filing.discard`); so it is in
exactly one of the lists as long as it has a label (`Filed.count`).  A list may also be one
of slots, each empty or with one object (`List.reduceOption`).
-/
namespace Lissandra

variable {α β : Type*} {label : α → Option β} {a : α} {b c : β} {file : List α}

/-- The list has the objects with this label, each of them once. -/
structure Filed (label : α → Option β) (b : β) (file : List α) : Prop where
  nodup : file.Nodup
  mem : ∀ a, a ∈ file ↔ label a = some b

/-- Every label has its list. -/
def Filing (label : α → Option β) (files : β → List α) : Prop := ∀ b, Filed label b (files b)

theorem Filed.perm {other : List α} (h : Filed label b file) (hperm : file.Perm other) :
    Filed label b other :=
  ⟨hperm.nodup_iff.mp h.nodup, fun a => by rw [← hperm.mem_iff, h.mem]⟩

theorem Filed.count [DecidableEq α] [DecidableEq β] (h : Filed label b file) (a : α) :
    file.count a = if label a = some b then 1 else 0 := by
  rw [h.nodup.count]
  simp only [h.mem]

/-! ## New labels -/

section Update
variable [DecidableEq α]

theorem Filed.add (h : Filed label b file) (hnew : label a ≠ some b) :
    Filed (Function.update label a (some b)) b (a :: file) := by
  refine ⟨List.nodup_cons.mpr ⟨fun hmem => hnew ((h.mem a).mp hmem), h.nodup⟩, fun other => ?_⟩
  by_cases hother : other = a
  · subst hother
    simp
  · rw [Function.update_of_ne hother, ← h.mem, List.mem_cons, or_iff_right hother]

theorem Filed.remove {x : Option β} (h : Filed label b (a :: file)) (hx : x ≠ some b) :
    Filed (Function.update label a x) b file := by
  obtain ⟨hnot, hnodup⟩ := List.nodup_cons.mp h.nodup
  refine ⟨hnodup, fun other => ?_⟩
  by_cases hother : other = a
  · subst hother
    rw [Function.update_self]
    exact iff_of_false hnot hx
  · rw [Function.update_of_ne hother, ← h.mem, List.mem_cons, or_iff_right hother]

theorem Filed.other {x : Option β} (h : Filed label b file) (hold : label a ≠ some b)
    (hx : x ≠ some b) : Filed (Function.update label a x) b file := by
  refine ⟨h.nodup, fun other => ?_⟩
  rw [h.mem]
  by_cases hother : other = a
  · subst hother
    rw [Function.update_self]
    exact iff_of_false hold hx
  · rw [Function.update_of_ne hother]

/-- The label an object had. -/
theorem Filed.update_same (x : Option β) (h : label a = x) : Function.update label a x = label := by
  rw [← h, Function.update_eq_self]

/-! ## Lists of all labels -/

variable {files files' : β → List α}

/-- An object without a label gets one. -/
theorem Filing.put (h : Filing label files) (hnew : label a = none)
    (hput : (files' b).Perm (a :: files b)) (hrest : ∀ c, c ≠ b → files' c = files c) :
    Filing (Function.update label a (some b)) files' := by
  intro c
  by_cases hc : c = b
  · subst hc
    refine ((h c).add ?_).perm hput.symm
    simp [hnew]
  · rw [hrest c hc]
    exact (h c).other (by simp [hnew]) (by simpa using Ne.symm hc)

/-- An object loses its label. -/
theorem Filing.discard (h : Filing label files) (htake : (files b).Perm (a :: files' b))
    (hrest : ∀ c, c ≠ b → files' c = files c) : Filing (Function.update label a none) files' := by
  have hlabel : label a = some b := ((h b).mem a).mp (htake.mem_iff.mpr List.mem_cons_self)
  intro c
  by_cases hc : c = b
  · subst hc
    exact ((h c).perm htake).remove nofun
  · rw [hrest c hc]
    exact (h c).other (by simpa [hlabel] using Ne.symm hc) nofun

/-- An object goes from one list to another. -/
theorem Filing.move (h : Filing label files) (hne : b ≠ c) (htake : (files b).Perm (a :: files' b))
    (hput : (files' c).Perm (a :: files c)) (hrest : ∀ d, d ≠ b → d ≠ c → files' d = files d) :
    Filing (Function.update label a (some c)) files' := by
  have hlabel : label a = some b := ((h b).mem a).mp (htake.mem_iff.mpr List.mem_cons_self)
  intro d
  by_cases hb : d = b
  · subst hb
    exact ((h d).perm htake).remove (by simpa using Ne.symm hne)
  · by_cases hc : d = c
    · subst hc
      refine ((h d).add ?_).perm hput.symm
      simpa [hlabel] using hne
    · rw [hrest d hb hc]
      exact (h d).other (by simpa [hlabel] using Ne.symm hb) (by simpa using Ne.symm hc)

end Update

/-! ## Slots -/

section Slots
variable {slots : List (Option α)} {i : Nat}

theorem reduceOption_set_some (h : slots[i]? = some none) :
    (slots.set i (some a)).reduceOption.Perm (a :: slots.reduceOption) := by
  induction slots generalizing i with
  | nil => simp at h
  | cons slot slots ih =>
    cases i with
    | zero =>
      obtain rfl : slot = none := by simpa using h
      rw [List.set_cons_zero, List.reduceOption_cons_of_some, List.reduceOption_cons_of_none]
    | succ i =>
      have hset := ih (by simpa using h)
      rw [List.set_cons_succ]
      cases slot with
      | none =>
        rw [List.reduceOption_cons_of_none, List.reduceOption_cons_of_none]
        exact hset
      | some other =>
        rw [List.reduceOption_cons_of_some, List.reduceOption_cons_of_some]
        exact (hset.cons other).trans (.swap a other _)

theorem reduceOption_set_none (h : slots[i]? = some (some a)) :
    slots.reduceOption.Perm (a :: (slots.set i none).reduceOption) := by
  obtain ⟨hi, hget⟩ := List.getElem?_eq_some_iff.mp h
  have hsame : slots.set i (some a) = slots := by
    rw [← hget]
    exact List.set_getElem_self hi
  -- what is taken out is what filling the empty slot puts back
  have hfill : ((slots.set i none).set i (some a)).reduceOption.Perm
      (a :: (slots.set i none).reduceOption) := reduceOption_set_some (List.getElem?_set_self hi)
  rwa [List.set_set, hsame] at hfill

/-- An object that is once in the list is in one slot. -/
theorem slot_unique {j : Nat} (h : slots.reduceOption.Nodup) (hi : slots[i]? = some (some a))
    (hj : slots[j]? = some (some a)) : j = i := by
  by_contra hne
  -- with slot `i` emptied the object would still be in slot `j`
  have hother : (slots.set i none)[j]? = some (some a) := by
    rw [List.getElem?_set_ne (Ne.symm hne), hj]
  have hmem : a ∈ (slots.set i none).reduceOption :=
    List.reduceOption_mem_iff.mpr (List.mem_of_getElem? hother)
  exact (List.nodup_cons.mp ((reduceOption_set_none hi).nodup_iff.mp h)).1 hmem

theorem count_reduceOption [DecidableEq α] (slots : List (Option α)) (a : α) :
    slots.reduceOption.count a = slots.count (some a) := by
  induction slots with
  | nil => rfl
  | cons slot slots ih =>
    cases slot with
    | none =>
      rw [List.reduceOption_cons_of_none, ih, List.count_cons_of_ne]
      exact nofun
    | some other =>
      rw [List.reduceOption_cons_of_some, List.count_cons, List.count_cons, ih]
      simp

end Slots

end Lissandra
