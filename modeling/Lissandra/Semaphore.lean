import Mathlib.Data.List.Basic

/-! # A semaphore that stands for a lock

Threads in a list, some of which hold the lock, and the value of a semaphore: the lock is sound
while the value and the number of holders are one together.  A wait of a thread that goes on, a
post of a holder and a move that neither takes nor gives keep this, and a sound lock has one
holder at most.
-/
namespace Lissandra

/-- The value of the semaphore and the holders are one together. -/
def Guarded {T : Type*} (holds : T → Bool) (value : Nat) (threads : List T) : Prop :=
  value + threads.countP holds = 1

section Guarded
variable {T : Type*} {holds : T → Bool} {value i : Nat} {threads : List T} {thread next : T}

theorem Guarded.countP_le (h : Guarded holds value threads) : threads.countP holds ≤ 1 := by
  unfold Guarded at h
  omega

/-- A holder is the only one. -/
theorem Guarded.excludes (h : Guarded holds value (thread :: threads))
    (hholds : holds thread = true) :
    ∀ other ∈ threads, holds other = false := by
  intro other hother
  rw [← Bool.not_eq_true]
  intro hboth
  have hpos : 0 < threads.countP holds := List.countP_pos_iff.mpr ⟨other, hother, hboth⟩
  have hone := h.countP_le
  rw [List.countP_cons_of_pos hholds] at hone
  omega

/-- A thread that becomes what it is. -/
theorem set_self_of_getElem? (hi : threads[i]? = some thread) : threads.set i thread = threads := by
  obtain ⟨hlt, rfl⟩ := List.getElem?_eq_some_iff.mp hi
  exact List.set_getElem_self hlt

/-- What one thread becomes changes the number of holders. -/
theorem countP_set_add (hi : threads[i]? = some thread) :
    (threads.set i next).countP holds + (if holds thread then 1 else 0)
      = threads.countP holds + if holds next then 1 else 0 := by
  obtain ⟨hlt, rfl⟩ := List.getElem?_eq_some_iff.mp hi
  have hpos : holds threads[i] = true → 0 < threads.countP holds :=
    fun hholds => List.countP_pos_iff.mpr ⟨_, List.getElem_mem hlt, hholds⟩
  rw [List.countP_set hlt]
  split
  · rename_i hholds
    have := hpos hholds
    omega
  · omega

/-- While a thread holds the lock the value is 0. -/
theorem Guarded.value_eq_zero (h : Guarded holds value threads) (hi : threads[i]? = some thread)
    (hholds : holds thread = true) : value = 0 := by
  have hpos : 0 < threads.countP holds :=
    List.countP_pos_iff.mpr ⟨thread, List.mem_of_getElem? hi, hholds⟩
  unfold Guarded at h
  omega

/-- A thread that holds the lock as before. -/
theorem Guarded.move (h : Guarded holds value threads) (hi : threads[i]? = some thread)
    (hsame : holds next = holds thread) : Guarded holds value (threads.set i next) := by
  have hcount := @countP_set_add T holds i threads thread next hi
  rw [hsame] at hcount
  unfold Guarded at h ⊢
  omega

/-- A wait takes the lock. -/
theorem Guarded.wait (h : Guarded holds value threads) (hi : threads[i]? = some thread)
    (hvalue : 0 < value) (hbefore : holds thread = false) (hafter : holds next = true) :
    Guarded holds (value - 1) (threads.set i next) := by
  have hcount := @countP_set_add T holds i threads thread next hi
  rw [hbefore, hafter, if_neg Bool.false_ne_true, if_pos rfl] at hcount
  unfold Guarded at h ⊢
  omega

/-- A post of the holder gives it back. -/
theorem Guarded.post (h : Guarded holds value threads) (hi : threads[i]? = some thread)
    (hbefore : holds thread = true) (hafter : holds next = false) :
    Guarded holds (value + 1) (threads.set i next) := by
  have hcount := @countP_set_add T holds i threads thread next hi
  rw [hbefore, hafter, if_neg Bool.false_ne_true, if_pos rfl] at hcount
  unfold Guarded at h ⊢
  omega

/-- A new thread does not hold it. -/
theorem Guarded.start (h : Guarded holds value threads) (hnext : holds next = false) :
    Guarded holds value (threads ++ [next]) := by
  have hone : [next].countP holds = 0 := by
    rw [List.countP_singleton, hnext]
    rfl
  unfold Guarded at h ⊢
  rw [List.countP_append, hone]
  exact h

end Guarded

end Lissandra
