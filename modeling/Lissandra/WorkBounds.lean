import Lissandra.Runs
import Mathlib.Algebra.BigOperators.Group.Finset.Basic
import Mathlib.Algebra.Ring.Nat
import Mathlib.Data.List.Count

/-! # Runs with a bounded amount of work

Some actions of a system are its own work, and the others may bring work to it.  A measure that
every working step lowers, and that any other step raises by no more than it brings, bounds the
work of every run (`Workload.work_le`).  If such a system can work whenever it is not done, it
can only stop when it is done, and it gets there (`Workload.completes`).

The measure of a system of many parts is a sum over the parts, and a step is often about one of
them (`sum_of_one`).
-/
namespace Lissandra

variable {S A : Type*} {step : S → A → Option S} {allowed : S → A → S → Prop} {good done : S → Prop}
  {working : A → Prop} {brings : A → Nat} {measure : S → Nat} {s s' : S}

/-- What work does to the measure, and what everything else brings. -/
structure Workload (step : S → A → Option S) (allowed : S → A → S → Prop) (good : S → Prop)
    (working : A → Prop) (brings : A → Nat) (measure : S → Nat) : Prop where
  keeps : ∀ s action s', good s → step s action = some s' → allowed s action s' → good s'
  works : ∀ s action s', good s → step s action = some s' → allowed s action s' →
    working action → measure s' < measure s
  others : ∀ s action s', good s → step s action = some s' → allowed s action s' →
    ¬ working action → measure s' ≤ measure s + brings action

namespace Workload
variable (h : Workload step allowed good working brings measure)
  [∀ s action s', Decidable (allowed s action s')]
include h

/-- **Bounded work.**  A run does no more work than there was, and than was brought in it. -/
theorem work_le [DecidablePred working] {actions : List A} (hgood : good s)
    (hruns : runSteps step allowed s actions = some s') :
    good s' ∧ actions.countP (fun action => working action) + measure s' ≤
      measure s + ((actions.filter fun action => ¬ working action).map brings).sum := by
  induction actions generalizing s with
  | nil =>
    obtain rfl := Option.some.inj hruns
    simpa using hgood
  | cons action actions ih =>
    rw [runSteps, List.foldlM_cons] at hruns
    obtain ⟨middle, hone, hrest⟩ := Option.bind_eq_some_iff.mp hruns
    obtain ⟨htaken, hpermitted⟩ := Option.filter_eq_some_iff.mp hone
    have hallowed := of_decide_eq_true hpermitted
    obtain ⟨hlast, hbound⟩ := ih (h.keeps s action middle hgood htaken hallowed) hrest
    refine ⟨hlast, ?_⟩
    by_cases hworks : working action
    · have hlt := h.works s action middle hgood htaken hallowed hworks
      rw [List.countP_cons_of_pos (by simpa using hworks),
        List.filter_cons_of_neg (by simpa using hworks)]
      omega
    · have hle := h.others s action middle hgood htaken hallowed hworks
      rw [List.countP_cons_of_neg (by simpa using hworks),
        List.filter_cons_of_pos (by simpa using hworks), List.map_cons, List.sum_cons]
      omega

/-- **Completion.**  A system that can work whenever it is not done gets done by work alone. -/
theorem completes (hprogress : ∀ s, good s → ¬ done s →
      ∃ action s', working action ∧ allowed s action s' ∧ step s action = some s')
    (hgood : good s) :
    ∃ actions s', (∀ action ∈ actions, working action) ∧
      runSteps step allowed s actions = some s' ∧ done s' := by
  induction hmeasure : measure s using Nat.strong_induction_on generalizing s with
  | h n ih =>
    by_cases hdone : done s
    · exact ⟨[], s, List.forall_mem_nil _, rfl, hdone⟩
    · obtain ⟨action, middle, hworks, hallowed, htaken⟩ := hprogress s hgood hdone
      have hlt := h.works s action middle hgood htaken hallowed hworks
      obtain ⟨actions, last, hall, hruns, hlast⟩ :=
        ih (measure middle) (hmeasure ▸ hlt) (h.keeps s action middle hgood htaken hallowed) rfl
      refine ⟨action :: actions, last, List.forall_mem_cons.mpr ⟨hworks, hall⟩, ?_, hlast⟩
      rw [runSteps, List.foldlM_cons, htaken, Option.filter_some_pos (by simpa using hallowed)]
      exact hruns

end Workload

/-- A sum over the parts of a system, when a step is about one part only. -/
theorem sum_of_one {α : Type*} [DecidableEq α] {parts parts' : Finset α} {weight weight' : α → Nat}
    (a : α) (hparts : ∀ b, b ∉ parts → weight b = 0) (hparts' : ∀ b, b ∉ parts' → weight' b = 0)
    (hother : ∀ b, b ≠ a → weight' b = weight b) :
    parts'.sum weight' + weight a = parts.sum weight + weight' a := by
  -- both sums are sums over all parts that there were or are
  have hall : parts ⊆ insert a (parts ∪ parts') :=
    Finset.subset_union_left.trans (Finset.subset_insert _ _)
  have hall' : parts' ⊆ insert a (parts ∪ parts') :=
    Finset.subset_union_right.trans (Finset.subset_insert _ _)
  have ha : a ∈ insert a (parts ∪ parts') := Finset.mem_insert_self _ _
  have hrest : ((insert a (parts ∪ parts')).erase a).sum weight' =
      ((insert a (parts ∪ parts')).erase a).sum weight :=
    Finset.sum_congr rfl fun b hb => hother b (Finset.ne_of_mem_erase hb)
  have hbefore := Finset.sum_subset hall fun b _ hb => hparts b hb
  have hafter := Finset.sum_subset hall' fun b _ hb => hparts' b hb
  rw [← Finset.add_sum_erase _ weight ha] at hbefore
  rw [← Finset.add_sum_erase _ weight' ha, hrest] at hafter
  rw [hbefore, hafter]
  ac_rfl

end Lissandra
