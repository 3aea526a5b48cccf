import Mathlib.Data.List.MinMax

/-! # The first maximum of a list

A loop that keeps the best element so far and replaces it only by a strictly better one
ends with the first maximum of what it saw, `List.argmax`.  This library says how such
results combine: the first maximum of two lists, one after the other, is the `later` of
the two first maxima, an associative operation with the empty result as its unit, so any
splitting of the work gives the same answer as one loop.
-/
namespace Lissandra

section Later
variable {α β : Type} [LinearOrder β] (f : α → β)

/-- The first maximum, for an order with decided comparisons. -/
abbrev firstMaximum (l : List α) : Option α := l.argmax f

/-- The new result is strictly better than the old one. -/
def beats : Option α → Option α → Bool
  | none, _ => false
  | some _, none => true
  | some a, some b => decide (f b < f a)

/-- The better of two results, the first unless the second is strictly better. -/
def later (old new : Option α) : Option α := if beats f new old then new else old

variable {f}

@[simp] theorem beats_none (old : Option α) : beats f none old = false := rfl

@[simp] theorem beats_some_none (a : α) : beats f (some a) none = true := rfl

@[simp] theorem beats_some_some (a b : α) : beats f (some a) (some b) = true ↔ f b < f a :=
  decide_eq_true_iff

@[simp] theorem later_none_left (new : Option α) : later f none new = new := by
  cases new <;> rfl

@[simp] theorem later_none_right (old : Option α) : later f old none = old := rfl

theorem beats_trans {a b c : Option α} (hab : beats f b a = true) (hbc : beats f c b = true) :
    beats f c a = true := by
  cases c with
  | none => simp at hbc
  | some c =>
    cases b with
    | none => simp at hab
    | some b =>
      cases a with
      | none => rfl
      | some a =>
        rw [beats_some_some] at hab hbc ⊢
        exact hab.trans hbc

theorem not_beats_trans {a b c : Option α} (hab : beats f b a = false) (hbc : beats f c b = false) :
    beats f c a = false := by
  cases c with
  | none => rfl
  | some c =>
    cases b with
    | none => simp at hbc
    | some b =>
      cases a with
      | none => simp at hab
      | some a =>
        simp only [beats, decide_eq_false_iff_not, not_lt] at hab hbc ⊢
        exact hbc.trans hab

theorem later_some_some (a b : α) :
    later f (some a) (some b) = if f a < f b then some b else some a := by
  simp [later]

theorem later_assoc (a b c : Option α) : later f (later f a b) c = later f a (later f b c) := by
  cases a with
  | none => simp
  | some a =>
    cases b with
    | none => simp
    | some b =>
      cases c with
      | none => simp
      | some c =>
        rw [later_some_some, later_some_some]
        rcases lt_or_ge (f a) (f b) with hab | hab <;> rcases lt_or_ge (f b) (f c) with hbc | hbc
        · rw [if_pos hab, if_pos hbc, later_some_some, later_some_some, if_pos hbc,
            if_pos (hab.trans hbc)]
        · rw [if_pos hab, if_neg hbc.not_gt, later_some_some, later_some_some, if_pos hab,
            if_neg hbc.not_gt]
        · rw [if_neg hab.not_gt, if_pos hbc, later_some_some]
        · rw [if_neg hab.not_gt, if_neg hbc.not_gt, later_some_some, later_some_some,
            if_neg hab.not_gt, if_neg (hbc.trans hab).not_gt]

/-- The order of two results matters only if they tie. -/
theorem later_comm {a b : Option α} (h : ∀ x ∈ a, ∀ y ∈ b, f x = f y → x = y) :
    later f a b = later f b a := by
  cases a with
  | none => simp
  | some a =>
    cases b with
    | none => simp
    | some b =>
      rw [later_some_some, later_some_some]
      rcases lt_trichotomy (f a) (f b) with hlt | heq | hgt
      · rw [if_pos hlt, if_neg hlt.not_gt]
      · rw [h a rfl b rfl heq]
      · rw [if_neg hgt.not_gt, if_pos hgt]

/-- A result that is as good absorbs the other. -/
theorem later_of_le {a b : Option α} (h : ∀ y ∈ b, ∃ x ∈ a, f y ≤ f x) : later f a b = a := by
  rw [later, if_neg]
  intro hbeats
  cases b with
  | none => simp at hbeats
  | some b =>
    obtain ⟨x, hx, hle⟩ := h b rfl
    obtain rfl : a = some x := hx
    exact absurd (beats_some_some b x |>.mp hbeats) hle.not_gt

theorem argmax_cons_later (a : α) (l : List α) :
    (a :: l).argmax f = later f (some a) (l.argmax f) := by
  rw [List.argmax_cons]
  cases l.argmax f with
  | none => rfl
  | some c => simp [later]

/-- **Two lists, one after the other.** -/
theorem argmax_append (l m : List α) : (l ++ m).argmax f = later f (l.argmax f) (m.argmax f) := by
  induction l with
  | nil => simp
  | cons a l ih => rw [List.cons_append, argmax_cons_later, ih, argmax_cons_later, later_assoc]

theorem exists_argmax (f : α → β) {l : List α} (hne : l ≠ []) :
    ∃ a ∈ l, l.argmax f = some a ∧ ∀ b ∈ l, f b ≤ f a := by
  obtain ⟨a, ha⟩ := Option.ne_none_iff_exists'.mp fun h =>
    hne (List.argmax_eq_none (f := f) |>.mp h)
  exact ⟨a, List.argmax_mem ha, ha, fun b hb => List.le_of_mem_argmax hb ha⟩

/-- One list's first maximum beats another's exactly when one of its elements is strictly
better than all of the other. -/
theorem beats_argmax {l m : List α} :
    beats f (m.argmax f) (l.argmax f) = true ↔ ∃ a ∈ m, ∀ b ∈ l, f b < f a := by
  constructor
  · intro h
    cases hm : m.argmax f with
    | none => simp [hm] at h
    | some a =>
      refine ⟨a, List.argmax_mem hm, fun b hb => ?_⟩
      cases hl : l.argmax f with
      | none => simp_all
      | some c =>
        rw [hm, hl, beats_some_some] at h
        exact (List.le_of_mem_argmax hb hl).trans_lt h
  · rintro ⟨a, ha, hall⟩
    cases hm : m.argmax f with
    | none => simp_all
    | some c =>
      cases hl : l.argmax f with
      | none => rfl
      | some b =>
        rw [beats_some_some]
        exact (hall b (List.argmax_mem hl)).trans_le (List.le_of_mem_argmax ha hm)

end Later

end Lissandra
