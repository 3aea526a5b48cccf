import Mathlib.Data.List.Basic

/-! # The history of a queue

Between two moments some elements joined a queue and some were served, each kind in its own order.
First in, first out means that what was there and then joined is what was served and is still
there, in this order (`InTurn`).  Such a history can be put together from its steps
(`InTurn.trans`), and an element that waits in a place is served after exactly those that wait
before it (`InTurn.place`).
-/
namespace Lissandra

variable {α : Type*} {queue middle last joined joined' served served' : List α} {a : α} {k : Nat}

/-- From `queue` to `last`, when these joined and those were served. -/
def InTurn (queue last joined served : List α) : Prop := queue ++ joined = served ++ last

theorem InTurn.refl (queue : List α) : InTurn queue queue [] [] := List.append_nil queue

theorem InTurn.join (queue : List α) (a : α) : InTurn queue (queue ++ [a]) [a] [] := rfl

theorem InTurn.serve (a : α) (rest : List α) : InTurn (a :: rest) rest [] [a] :=
  List.append_nil (a :: rest)

theorem InTurn.trans (h : InTurn queue middle joined served)
    (h' : InTurn middle last joined' served') :
    InTurn queue last (joined ++ joined') (served ++ served') := by
  calc queue ++ (joined ++ joined')
      = (queue ++ joined) ++ joined' := (List.append_assoc ..).symm
    _ = served ++ (middle ++ joined') := by rw [h, List.append_assoc]
    _ = served ++ served' ++ last := by rw [h', List.append_assoc]

/-- An element in a place of the queue is served right after those before it, or it has moved up by
as many places as there were served. -/
theorem InTurn.place (h : InTurn queue last joined served) (hplace : queue[k]? = some a) :
    served.take (k + 1) = queue.take (k + 1) ∨
      served = queue.take served.length ∧ last[k - served.length]? = some a := by
  have hlt := (List.getElem?_eq_some_iff.mp hplace).1
  rcases Nat.lt_or_ge k served.length with hserved | hwaits
  · left
    have htake := congrArg (List.take (k + 1)) h
    rw [List.take_append_of_le_length hlt, List.take_append_of_le_length hserved] at htake
    exact htake.symm
  · right
    have htake := congrArg (List.take served.length) h
    rw [List.take_append_of_le_length (by omega), List.take_left] at htake
    refine ⟨htake.symm, ?_⟩
    rw [← List.getElem?_append_right hwaits, ← h, List.getElem?_append_left hlt, hplace]

end Lissandra
