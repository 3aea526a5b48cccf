import Mathlib.Data.List.Rotate

/-! # Taking turns

A list is visited in turns: one index further each time, and from the end on at the first one
again.  However many turns there were, as many consecutive ones as the list is long are a rotation
of the list (`Visits.window`).
-/
namespace Lissandra

/-- The index after a cursor, which may be before the list or past its end. -/
def nextTurn (n : Nat) (cursor : Int) : Int := if (n : Int) - 1 ≤ cursor then 0 else cursor + 1

/-- Visited from an index on, in turns. -/
def Visits {α : Type*} (list : List α) (start : Nat) (visited : List α) : Prop :=
  ∀ k < visited.length, visited[k]? = list[(start + k) % list.length]?

section Cursor
variable {n : Nat} {cursor : Int}

theorem nextTurn_bounds (h : -1 ≤ cursor) (hn : n ≠ 0) :
    0 ≤ nextTurn n cursor ∧ nextTurn n cursor < n := by
  unfold nextTurn
  split
  · omega
  · omega

/-- The turn after the one of an index. -/
theorem nextTurn_of_index {i : Nat} (h : i < n) : nextTurn n i = ((i + 1) % n : Nat) := by
  unfold nextTurn
  split
  · rename_i hlast
    have heq : i + 1 = n := by omega
    rw [heq, Nat.mod_self]
    rfl
  · rename_i hbefore
    rw [Nat.mod_eq_of_lt (by omega)]
    rfl

end Cursor

section Visited
variable {α : Type*} {list visited : List α} {start : Nat} {a : α}

theorem visits_nil (list : List α) (start : Nat) : Visits list start [] := by
  intro k hk
  cases hk

/-- One more turn. -/
theorem Visits.append (h : Visits list start visited)
    (ha : list[(start + visited.length) % list.length]? = some a) :
    Visits list start (visited ++ [a]) := by
  intro k hk
  rw [List.length_append, List.length_singleton] at hk
  by_cases hlast : k = visited.length
  · subst hlast
    rw [List.getElem?_concat_length, ha]
  · have hbefore : k < visited.length := by omega
    rw [List.getElem?_append_left hbefore]
    exact h k hbefore

/-- **Windows.**  Consecutive turns, as many as the list is long, are a rotation of it. -/
theorem Visits.window (h : Visits list start visited) {i : Nat}
    (hi : i + list.length ≤ visited.length) :
    (visited.drop i).take list.length = list.rotate (start + i) := by
  apply List.ext_getElem?
  intro k
  by_cases hk : k < list.length
  · have hindex : start + (i + k) = k + (start + i) := by omega
    rw [List.getElem?_take_of_lt hk, List.getElem?_drop, h (i + k) (by omega),
      List.getElem?_rotate hk, hindex]
  · have hrotate : (list.rotate (start + i)).length ≤ k := by
      rw [List.length_rotate]
      omega
    rw [List.getElem?_take_eq_none (by omega), List.getElem?_eq_none hrotate]

end Visited

end Lissandra
