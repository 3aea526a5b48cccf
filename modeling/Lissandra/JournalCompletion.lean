import Lissandra.Runs
import Mathlib.Data.Fintype.Card
import Mathlib.Data.Fin.VecNotation
import Mathlib.Logic.Function.Basic

/-! # The answers to a JOURNAL of the kernel

`journaling` asks every memory of a criterion at once, and each answer calls
`_local_journal_callback` in a thread of its own.  The count of the answers is raised under
`g_journal_sum`, but the comparison that tells the last answer comes later and without it: a
callback that is still between the two when another one counts the last answer takes itself for
the last one too.

A step is what one callback does between two points.  The callback of a JOURNAL statement is
`on_journal`, which is not `NULL`.
-/
namespace Lissandra

/-- Where a call of `_local_journal_callback` is. -/
inductive JournalPoint where
  | called
  | counted
  | recorded
  | completing
  | posting
  | finished
  deriving DecidableEq

namespace JournalPoint

/-- After the increment, before the comparison. -/
def Counting (point : JournalPoint) : Prop := point = .counted ∨ point = .recorded

/-- Inside of the branch of the comparison. -/
def Completes (point : JournalPoint) : Prop := point = .completing ∨ point = .posting

/-- After the result is written. -/
def Told (point : JournalPoint) : Prop := point ≠ .called ∧ point ≠ .counted

instance (point : JournalPoint) : Decidable point.Counting := inferInstanceAs (Decidable (_ ∨ _))
instance (point : JournalPoint) : Decidable point.Told := inferInstanceAs (Decidable (_ ∧ _))

end JournalPoint

/-- A call of `g_journal_callback`: how many answers were counted, and the `int` it is given. -/
structure JournalDone where
  counted : Nat
  result : Int32
  deriving DecidableEq

/-- The globals of a journaling of `n` memories, the calls of its callback, and what has been
completed: the calls of `g_journal_callback` and the posts of `g_journal_semaphore`. -/
structure Journaling (n : Nat) where
  gJournalExpected : Nat
  gJournalActual : Nat
  gJournalResult : Int32
  point : Fin n → JournalPoint
  completions : List JournalDone
  posts : Nat

variable {n : Nat}

/-- `journaling`, for a list of `n` memories. -/
def journaling (n : Nat) : Journaling n :=
  if n = 0 then ⟨0, 0, -3, fun _ => .called, [⟨0, -3⟩], 1⟩
  else ⟨n, 0, 0, fun _ => .called, [], 0⟩

/-- An answer that did not come, or is a -1. -/
def Failed (answer : Option Int32) : Prop := answer = none ∨ answer = some (-1)

instance (answer : Option Int32) : Decidable (Failed answer) :=
  inferInstanceAs (Decidable (_ ∨ _))

namespace Journaling

/-- A call is at another point. -/
def goto (s : Journaling n) (i : Fin n) (point : JournalPoint) : Journaling n :=
  { s with point := Function.update s.point i point }

/-- `_local_journal_callback`: the next step of the call for the answer of memory `i`. -/
def step (answer : Fin n → Option Int32) (s : Journaling n) (i : Fin n) :
    Option (Journaling n) :=
  match s.point i with
  | .called => some { s.goto i .counted with gJournalActual := s.gJournalActual + 1 }
  | .counted =>
    if Failed (answer i) then some { s.goto i .recorded with gJournalResult := -1 }
    else some (s.goto i .recorded)
  | .recorded =>
    if s.gJournalActual = s.gJournalExpected then some (s.goto i .completing)
    else some (s.goto i .finished)
  | .completing =>
    some { s.goto i .posting with
      completions := s.completions ++ [⟨s.gJournalActual, s.gJournalResult⟩] }
  | .posting => some { s.goto i .finished with posts := s.posts + 1 }
  | .finished => none

/-- The last answer is counted while no other call is between its increment and its
comparison. -/
def Alone (s : Journaling n) (i : Fin n) (_ : Journaling n) : Prop :=
  s.point i = .called → s.gJournalActual + 1 = s.gJournalExpected →
    ∀ j, j ≠ i → ¬ (s.point j).Counting

instance (s : Journaling n) (i : Fin n) (s' : Journaling n) : Decidable (s.Alone i s') :=
  inferInstanceAs (Decidable (_ → _ → _))

/-- -1 if a memory failed, and 0 otherwise. -/
def rightResult (answer : Fin n → Option Int32) : Int32 :=
  if ∃ i, Failed (answer i) then -1 else 0

/-! ## What is known in every state -/

/-- The result, as far as the calls have told it. -/
def toldResult (answer : Fin n → Option Int32) (point : Fin n → JournalPoint) : Int32 :=
  if ∃ i, (point i).Told ∧ Failed (answer i) then -1 else 0

/-- The calls that have counted their answer. -/
def counted (s : Journaling n) : Finset (Fin n) :=
  Finset.univ.filter fun i => s.point i ≠ .called

/-- What holds as long as the last answer was counted by a call that was alone. -/
structure Consistent (answer : Fin n → Option Int32) (s : Journaling n) : Prop where
  expected : s.gJournalExpected = n
  actual : s.gJournalActual = s.counted.card
  result : s.gJournalResult = toldResult answer s.point
  /-- Nobody completes before the last answer is counted. -/
  early : s.gJournalActual < n →
    (∀ i, ¬ (s.point i).Completes) ∧ s.completions = [] ∧ s.posts = 0
  /-- Afterwards only the call that counted it is left. -/
  late : s.gJournalActual = n → ∃ last, (∀ i, i ≠ last → s.point i = .finished) ∧
    s.completions = (if s.point last = .posting ∨ s.point last = .finished
      then [⟨n, rightResult answer⟩] else []) ∧
    s.posts = if s.point last = .finished then 1 else 0

variable {answer : Fin n → Option Int32} {s s' : Journaling n} {i : Fin n} {point : JournalPoint}

@[simp] theorem goto_point : (s.goto i point).point = Function.update s.point i point := rfl

@[simp] theorem goto_completions : (s.goto i point).completions = s.completions := rfl

@[simp] theorem goto_posts : (s.goto i point).posts = s.posts := rfl

@[simp] theorem mem_counted : i ∈ s.counted ↔ s.point i ≠ .called := by simp [counted]

/-- A call that counts its answer is one more. -/
theorem card_counted_goto (hi : s.point i = .called) (hpoint : point ≠ .called) :
    (s.goto i point).counted.card = s.counted.card + 1 := by
  have hmem : i ∉ s.counted := by simp [hi]
  have hinsert : (s.goto i point).counted = insert i s.counted := by
    ext j
    by_cases hj : j = i
    · subst hj
      simp [hpoint]
    · simp [hj]
  rw [hinsert, Finset.card_insert_of_notMem hmem]

/-- The other steps count nothing. -/
theorem counted_goto (hi : s.point i ≠ .called) (hpoint : point ≠ .called) :
    (s.goto i point).counted = s.counted := by
  ext j
  by_cases hj : j = i
  · subst hj
    simp [hpoint, hi]
  · simp [hj]

/-- When one answer is missing, it is the one of the call that has not counted. -/
theorem counted_of_last (hi : s.point i = .called) (hcard : s.counted.card + 1 = n) {j : Fin n}
    (hj : j ≠ i) : s.point j ≠ .called := by
  intro hcalled
  have hsub : s.counted ⊆ (Finset.univ.erase i).erase j := by
    intro k hk
    rw [mem_counted] at hk
    simp only [Finset.mem_erase, Finset.mem_univ, and_true]
    constructor
    · rintro rfl
      exact hk hcalled
    · rintro rfl
      exact hk hi
  have hle := Finset.card_le_card hsub
  have hmem : j ∈ Finset.univ.erase i := by simp [hj]
  rw [Finset.card_erase_of_mem hmem, Finset.card_erase_of_mem (Finset.mem_univ i),
    Finset.card_univ, Fintype.card_fin] at hle
  have hlt := i.isLt
  have hne := Fin.val_ne_of_ne hj
  have hltj := j.isLt
  omega

/-- After the last answer is counted, only the last call takes steps. -/
theorem Consistent.eq_last {last : Fin n} (hothers : ∀ i, i ≠ last → s.point i = .finished)
    (hi : s.point i ≠ .finished) : i = last := by
  by_contra hne
  exact hi (hothers i hne)

/-- The result when every call has told its answer. -/
theorem Consistent.result_of_told (h : s.Consistent answer) (htold : ∀ i, (s.point i).Told) :
    s.gJournalResult = rightResult answer := by
  rw [h.result, toldResult, rightResult]
  simp only [htold, true_and]

/-! ## The steps of a call -/

/-- One step only tells the result. -/
theorem toldResult_goto (hsame : (s.point i).Told ↔ point.Told) :
    toldResult answer (s.goto i point).point = toldResult answer s.point := by
  unfold toldResult
  congr 1
  apply propext
  apply exists_congr
  intro j
  by_cases hj : j = i
  · subst hj
    simp [hsame]
  · simp [hj]

/-- The last answer is counted, by a call that was alone. -/
theorem Consistent.late_of_alone (h : s.Consistent answer) (hi : s.point i = .called)
    (halone : s.Alone i s') (hlast : s.gJournalActual + 1 = n) {j : Fin n} (hj : j ≠ i) :
    s.point j = .finished := by
  have hcalled : s.point j ≠ .called := counted_of_last hi (h.actual ▸ hlast) hj
  have hcounting : ¬ (s.point j).Counting := halone hi (by rw [h.expected]; exact hlast) j hj
  have hcompletes : ¬ (s.point j).Completes := (h.early (by omega)).1 j
  cases hpoint : s.point j <;>
    simp_all [JournalPoint.Counting, JournalPoint.Completes]

theorem Consistent.step_called (h : s.Consistent answer) (hi : s.point i = .called)
    (halone : s.Alone i s') :
    Consistent answer { s.goto i .counted with gJournalActual := s.gJournalActual + 1 } where
  expected := h.expected
  actual := by
    show s.gJournalActual + 1 = (s.goto i .counted).counted.card
    rw [card_counted_goto hi (by simp), h.actual]
  result := by
    show s.gJournalResult = toldResult answer (s.goto i .counted).point
    rw [toldResult_goto (by simp [hi, JournalPoint.Told]), h.result]
  early := by
    intro hearly
    have hbefore := h.early (Nat.lt_of_succ_lt hearly)
    refine ⟨fun j => ?_, hbefore.2⟩
    by_cases hj : j = i
    · subst hj
      simp [JournalPoint.Completes]
    · simpa [hj] using hbefore.1 j
  late := by
    intro hlate
    have hbefore := h.early (by simp only at hlate; omega)
    refine ⟨i, fun j hj => ?_, ?_, ?_⟩
    · simpa [hj] using h.late_of_alone hi halone hlate hj
    · simpa using hbefore.2.1
    · simpa using hbefore.2.2

/-- A call that has counted its answer goes on.  When the last answer is counted this is the
call that counted it. -/
theorem Consistent.moves {result : Int32} {completions : List JournalDone} {posts : Nat}
    (h : s.Consistent answer) (hi : s.point i ≠ .called) (hunfinished : s.point i ≠ .finished)
    (hpoint : point ≠ .called)
    (hresult : result = toldResult answer (s.goto i point).point)
    (hearly : s.gJournalActual < n →
      ¬ point.Completes ∧ completions = s.completions ∧ posts = s.posts)
    (hlate : s.gJournalActual = n → (∀ j, j ≠ i → s.point j = .finished) →
      s.completions = (if s.point i = .posting then [⟨n, rightResult answer⟩] else []) →
      s.posts = 0 →
      completions = (if point = .posting ∨ point = .finished
        then [⟨n, rightResult answer⟩] else []) ∧ posts = if point = .finished then 1 else 0) :
    Consistent answer
      { s.goto i point with gJournalResult := result, completions := completions, posts := posts }
    where
  expected := h.expected
  actual := by
    show s.gJournalActual = (s.goto i point).counted.card
    rw [counted_goto hi hpoint, h.actual]
  result := hresult
  early := by
    intro hactual
    obtain ⟨hcompletes, hcompletions, hposts⟩ := h.early hactual
    obtain ⟨hpoint, hsame, hsamePosts⟩ := hearly hactual
    refine ⟨fun j => ?_, hsame.trans hcompletions, hsamePosts.trans hposts⟩
    by_cases hj : j = i
    · subst hj
      simpa using hpoint
    · simpa [hj] using hcompletes j
  late := by
    intro hactual
    obtain ⟨last, hothers, hcompletions, hposts⟩ := h.late hactual
    obtain rfl : i = last := Consistent.eq_last hothers hunfinished
    simp only [hunfinished, or_false, if_false] at hcompletions hposts
    obtain ⟨hcompletions, hposts⟩ := hlate hactual hothers hcompletions hposts
    refine ⟨i, fun j hj => ?_, ?_, ?_⟩
    · simpa [hj] using hothers j hj
    · simpa using hcompletions
    · simpa using hposts

/-- Telling a result takes a failed memory into account. -/
theorem Consistent.told (h : s.Consistent answer) (hi : s.point i = .counted) :
    (if Failed (answer i) then -1 else s.gJournalResult)
      = toldResult answer (s.goto i .recorded).point := by
  rw [h.result]
  unfold toldResult
  by_cases hfailed : Failed (answer i)
  · have hnew : ∃ j, ((s.goto i .recorded).point j).Told ∧ Failed (answer j) :=
      ⟨i, by simp [JournalPoint.Told], hfailed⟩
    rw [if_pos hfailed, if_pos hnew]
  · rw [if_neg hfailed]
    congr 1
    apply propext
    apply exists_congr
    intro j
    by_cases hj : j = i
    · subst hj
      simp [hfailed]
    · simp [hj]

theorem Consistent.step_counted (h : s.Consistent answer) (hi : s.point i = .counted) :
    Consistent answer { s.goto i .recorded with
      gJournalResult := if Failed (answer i) then -1 else s.gJournalResult } := by
  apply h.moves (by simp [hi]) (by simp [hi]) (by simp) (h.told hi)
  · intro _
    exact ⟨by simp [JournalPoint.Completes], rfl, rfl⟩
  · intro _ _ hcompletions hposts
    simpa [hi] using And.intro hcompletions hposts

theorem Consistent.step_recorded (h : s.Consistent answer) (hi : s.point i = .recorded) :
    Consistent answer
      (s.goto i (if s.gJournalActual = s.gJournalExpected then .completing else .finished)) := by
  apply h.moves (by simp [hi]) (by simp [hi]) (by split_ifs <;> simp)
  · rw [toldResult_goto (by rw [hi]; split_ifs <;> simp [JournalPoint.Told])]
    exact h.result
  · intro hactual
    rw [h.expected, if_neg hactual.ne]
    exact ⟨by simp [JournalPoint.Completes], rfl, rfl⟩
  · intro hactual _ hcompletions hposts
    rw [h.expected, if_pos hactual]
    simpa [hi] using And.intro hcompletions hposts

theorem Consistent.step_completing (h : s.Consistent answer) (hi : s.point i = .completing) :
    Consistent answer { s.goto i .posting with
      completions := s.completions ++ [⟨s.gJournalActual, s.gJournalResult⟩] } := by
  apply h.moves (by simp [hi]) (by simp [hi]) (by simp)
  · rw [toldResult_goto (by simp [hi, JournalPoint.Told])]
    exact h.result
  · intro hactual
    exact absurd (.inl hi) ((h.early hactual).1 i)
  · intro hactual hothers hcompletions hposts
    have htold : ∀ j, (s.point j).Told := by
      intro j
      by_cases hj : j = i
      · simp [hj, hi, JournalPoint.Told]
      · simp [hothers j hj, JournalPoint.Told]
    rw [hcompletions, hactual, h.result_of_told htold, goto_posts, hposts]
    simp [hi]

theorem Consistent.step_posting (h : s.Consistent answer) (hi : s.point i = .posting) :
    Consistent answer { s.goto i .finished with posts := s.posts + 1 } := by
  apply h.moves (by simp [hi]) (by simp [hi]) (by simp)
  · rw [toldResult_goto (by simp [hi, JournalPoint.Told])]
    exact h.result
  · intro hactual
    exact absurd (.inr hi) ((h.early hactual).1 i)
  · intro _ _ hcompletions hposts
    rw [goto_completions, hcompletions, hposts]
    simp [hi]

theorem Consistent.step (h : s.Consistent answer) (hstep : s.step answer i = some s')
    (halone : s.Alone i s') : s'.Consistent answer := by
  unfold Journaling.step at hstep
  cases hi : s.point i with
  | called =>
    rw [hi] at hstep
    cases hstep
    exact h.step_called hi halone
  | counted =>
    have hnext := h.step_counted hi
    rw [hi] at hstep
    simp only at hstep
    split_ifs at hstep hnext <;> cases hstep <;> exact hnext
  | recorded =>
    have hnext := h.step_recorded hi
    rw [hi] at hstep
    simp only at hstep
    split_ifs at hstep hnext <;> cases hstep <;> exact hnext
  | completing =>
    rw [hi] at hstep
    cases hstep
    exact h.step_completing hi
  | posting =>
    rw [hi] at hstep
    cases hstep
    exact h.step_posting hi
  | finished => simp [hi] at hstep

theorem consistent_journaling (hn : 1 ≤ n) (answer : Fin n → Option Int32) :
    (journaling n).Consistent answer := by
  have hzero : n ≠ 0 := by omega
  rw [journaling, if_neg hzero]
  constructor
  · rfl
  · simp [counted]
  · simp [toldResult, JournalPoint.Told]
  · intro _
    simp [JournalPoint.Completes]
  · intro hlate
    simp only at hlate
    omega

/-! ## Completion -/

/-- **A JOURNAL that no two calls complete.**  As long as the last answer is counted while no
other call is between its increment and its comparison, there is never more than one call of
`g_journal_callback` and one post, the call comes after every answer was counted and has the
result of all of them, and once every call has returned there has been one of each. -/
theorem journal_completes_once {answer : Fin n → Option Int32} (hn : 1 ≤ n)
    (hrun : Run (Journaling.step answer) Journaling.Alone (journaling n) s) :
    (s.completions = [] ∨ s.completions = [⟨n, rightResult answer⟩]) ∧ s.posts ≤ 1 ∧
      ((∀ i, s.point i = .finished) →
        s.completions = [⟨n, rightResult answer⟩] ∧ s.posts = 1) := by
  have h : s.Consistent answer := hrun.invariant (consistent_journaling hn answer)
    fun _ _ _ hconsistent hstep halone => hconsistent.step hstep halone
  have hle : s.gJournalActual ≤ n := by
    rw [h.actual]
    exact (Finset.card_le_univ _).trans_eq (Fintype.card_fin n)
  obtain hearly | hlate := hle.lt_or_eq
  · obtain ⟨-, hcompletions, hposts⟩ := h.early hearly
    refine ⟨.inl hcompletions, by omega, fun hfinished => ?_⟩
    have hall : s.counted = Finset.univ := by
      ext j
      simp [hfinished j]
    rw [h.actual, hall, Finset.card_univ, Fintype.card_fin] at hearly
    exact absurd hearly (lt_irrefl n)
  · obtain ⟨last, -, hcompletions, hposts⟩ := h.late hlate
    refine ⟨?_, ?_, fun hfinished => ?_⟩
    · rw [hcompletions]
      split_ifs
      · exact .inr rfl
      · exact .inl rfl
    · rw [hposts]
      split_ifs <;> omega
    · simp [hcompletions, hposts, hfinished last]

/-- The call for a memory that could not be asked, and the one for a memory that did its
journaling. -/
def unasked : Fin 2 := ⟨0, Nat.two_pos⟩
def answered : Fin 2 := ⟨1, Nat.one_lt_two⟩

def twoAnswers : Fin 2 → Option Int32 := ![none, some 0]

/-- The first call is past its comparison when the second one counts. -/
def oneByOne : List (Fin 2) := List.replicate 3 unasked ++ List.replicate 5 answered

theorem journal_completes_once_two :
    ∃ s : Journaling 2, Run (Journaling.step twoAnswers) Journaling.Alone (journaling 2) s ∧
      s.completions = [⟨2, -1⟩] ∧ s.posts = 1 := by
  have hrun : ((runSteps (Journaling.step twoAnswers) Journaling.Alone (journaling 2)
      oneByOne).any fun s => decide (∀ i, s.point i = .finished)) = true := by decide
  obtain ⟨s, hsteps, hfinished⟩ := Option.any_eq_true _ _ |>.mp hrun
  have hrun := run_of_runSteps hsteps
  exact ⟨s, hrun, (journal_completes_once (by decide) hrun).2.2 (of_decide_eq_true hfinished)⟩

/-- Both calls count their answer before one of them compares. -/
def countedTogether : List (Fin 2) :=
  unasked :: (List.replicate 5 answered ++ List.replicate 4 unasked)

/-- A JOURNAL is completed twice, the first time without the failure of the other memory. -/
theorem journal_completes_twice :
    ∃ s : Journaling 2, Run (Journaling.step twoAnswers) (fun _ _ _ => True) (journaling 2) s ∧
      (∀ i, s.point i = .finished) ∧ s.completions = [⟨2, 0⟩, ⟨2, -1⟩] ∧ s.posts = 2 := by
  have hrun : ((runSteps (Journaling.step twoAnswers) (fun _ _ _ => True) (journaling 2)
      countedTogether).any fun s => decide ((∀ i, s.point i = .finished) ∧
        s.completions = [⟨2, 0⟩, ⟨2, -1⟩] ∧ s.posts = 2)) = true := by decide
  obtain ⟨s, hsteps, hs⟩ := Option.any_eq_true _ _ |>.mp hrun
  exact ⟨s, run_of_runSteps hsteps, of_decide_eq_true hs⟩

end Journaling
end Lissandra
