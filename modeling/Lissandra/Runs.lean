import Mathlib.Data.List.Induction

/-! # Runs of a step function

A system of concurrent processes is a state with a step function: an action is a section
of one of the processes that no other one can interrupt, and `none` is an action that
cannot be taken.  `Run` collects the states that a sequence of permitted actions reaches.
What every permitted step preserves holds in all of them (`Run.invariant`).
-/
namespace Lissandra

variable {S A : Type*} {step : S → A → Option S} {allowed permitted : S → A → S → Prop}
  {s s₁ s₂ : S}

/-- The states reached by steps that `allowed` lets through. -/
inductive Run (step : S → A → Option S) (allowed : S → A → S → Prop) (s : S) : S → Prop
  | refl : Run step allowed s s
  | step {s₁ s₂ : S} (action : A) (before : Run step allowed s s₁)
      (taken : step s₁ action = some s₂) (permitted : allowed s₁ action s₂) :
      Run step allowed s s₂

theorem Run.trans (h₁ : Run step allowed s s₁) (h₂ : Run step allowed s₁ s₂) :
    Run step allowed s s₂ := by
  induction h₂ with
  | refl => exact h₁
  | step action _ taken permitted ih => exact ih.step action taken permitted

theorem Run.mono (h : Run step allowed s s₁)
    (hsub : ∀ s action s', allowed s action s' → permitted s action s') :
    Run step permitted s s₁ := by
  induction h with
  | refl => exact .refl
  | step action _ taken hallowed ih => exact ih.step action taken (hsub _ _ _ hallowed)

/-- **Invariants of runs.**  What holds at the start and is preserved by every permitted
step holds in every state of a run. -/
theorem Run.invariant {P : S → Prop} (h : Run step allowed s s₁) (hstart : P s)
    (hstep : ∀ s action s', P s → step s action = some s' → allowed s action s' → P s') : P s₁ := by
  induction h with
  | refl => exact hstart
  | step action _ taken permitted ih => exact hstep _ _ _ ih taken permitted

/-- **A loop over a list**, each of whose turns is a run from where the loop is. -/
theorem run_foldlM {X B : Type*} {f : B → X → Option B} {during : B → Nat → S} {P : B → Prop}
    {xs : List X} {b b' : B} (h : xs.foldlM f b = some b') (hstart : P b)
    (hturn : ∀ (i : Nat) x b b', xs[i]? = some x → P b → f b x = some b' →
      P b' ∧ Run step allowed (during b i) (during b' (i + 1))) :
    P b' ∧ Run step allowed (during b 0) (during b' xs.length) := by
  induction xs using List.reverseRecOn generalizing b' with
  | nil =>
    obtain rfl := Option.some.inj h
    exact ⟨hstart, .refl⟩
  | append_singleton xs x ih =>
    rw [List.foldlM_append] at h
    obtain ⟨middle, hbefore, hafter⟩ := Option.bind_eq_some_iff.mp h
    obtain ⟨last, hlast, hend⟩ := Option.bind_eq_some_iff.mp hafter
    obtain rfl := Option.some.inj hend
    obtain ⟨hmiddle, hrun⟩ := ih hbefore fun i y c c' hi => hturn i y c c' <| by
      obtain ⟨hlt, -⟩ := List.getElem?_eq_some_iff.mp hi
      rw [List.getElem?_append_left hlt, hi]
    obtain ⟨hP, hturn⟩ := hturn xs.length x middle last List.getElem?_concat_length hmiddle hlast
    rw [List.length_append, List.length_singleton]
    exact ⟨hP, hrun.trans hturn⟩

/-- Several steps in a row, as long as they are permitted. -/
def runSteps (step : S → A → Option S) (allowed : S → A → S → Prop)
    [∀ s action s', Decidable (allowed s action s')] (s : S) (actions : List A) : Option S :=
  actions.foldlM (fun s action => (step s action).filter fun s' => allowed s action s') s

/-- Several steps in a row whose actions are of a kind. -/
theorem run_of_runSteps_of_forall [∀ s action s', Decidable (allowed s action s')] {kind : A → Prop}
    {actions : List A} (h : runSteps step allowed s actions = some s₁)
    (hkind : ∀ action ∈ actions, kind action) :
    Run step (fun s action s' => kind action ∧ allowed s action s') s s₁ := by
  induction actions generalizing s with
  | nil =>
    obtain rfl := Option.some.inj h
    exact .refl
  | cons action actions ih =>
    rw [runSteps, List.foldlM_cons] at h
    obtain ⟨middle, hone, hrest⟩ := Option.bind_eq_some_iff.mp h
    obtain ⟨taken, hpermitted⟩ := Option.filter_eq_some_iff.mp hone
    have hfirst : kind action ∧ allowed s action middle :=
      ⟨hkind action List.mem_cons_self, of_decide_eq_true hpermitted⟩
    refine (Run.refl.step action taken hfirst).trans (ih hrest fun other hother => ?_)
    exact hkind other (List.mem_cons_of_mem _ hother)

theorem run_of_runSteps [∀ s action s', Decidable (allowed s action s')] {actions : List A}
    (h : runSteps step allowed s actions = some s₁) : Run step allowed s s₁ := by
  have hrun := run_of_runSteps_of_forall h fun _ _ => trivial
  exact hrun.mono fun _ _ _ hboth => hboth.2

end Lissandra
