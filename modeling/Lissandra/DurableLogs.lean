import Mathlib.Data.List.Basic
import Mathlib.Logic.Function.Basic

/-! # Logs, a part of which is durable

A store has logs under names.  A new entry is at first recent: a restart forgets it.  A flush makes
the recent entries of the names that it writes durable, behind those that are; it leaves them among
the recent ones, until a restart.  Recent entries do not need a log: they wait for one of their
name.

Nothing is in a store that was not appended (`mem_run`).  What is durable stays until its log is
removed (`durable_run`), and what is recent stays until a restart (`recent_run`).
-/
namespace Lissandra

/-- The logs that are durable and the entries that are not, by name. -/
structure LogStore (Name Entry : Type*) where
  durable : Name → Option (List Entry)
  recent : Name → List Entry

/-- What can be done with a store. -/
inductive LogOp (Name Entry : Type*) where
  | create (name : Name)
  | remove (name : Name)
  | append (name : Name) (entry : Entry)
  | flush (written : Name → Bool)
  | restart

namespace LogStore
variable {Name Entry : Type*}

/-- No logs. -/
def empty : LogStore Name Entry where
  durable := fun _ => none
  recent := fun _ => []

/-- A log: what is durable, and then what is recent. -/
def entries (store : LogStore Name Entry) (name : Name) : Option (List Entry) :=
  (store.durable name).map fun log => log ++ store.recent name

/-- An entry that a restart does not forget. -/
def Keeps (store : LogStore Name Entry) (name : Name) (entry : Entry) : Prop :=
  ∃ log, store.durable name = some log ∧ entry ∈ log

/-- An entry that is somewhere under a name. -/
def Has (store : LogStore Name Entry) (name : Name) (entry : Entry) : Prop :=
  store.Keeps name entry ∨ entry ∈ store.recent name

variable [DecidableEq Name]

/-- One operation. -/
def apply (store : LogStore Name Entry) : LogOp Name Entry → LogStore Name Entry
  | .create name =>
    { store with
      durable := Function.update store.durable name (some ((store.durable name).getD [])) }
  | .remove name => { store with durable := Function.update store.durable name none }
  | .append name entry =>
    { store with recent := Function.update store.recent name (store.recent name ++ [entry]) }
  | .flush written =>
    { store with
      durable := fun name =>
        if written name then store.entries name else store.durable name }
  | .restart => { store with recent := fun _ => [] }

/-- Several operations, one after the other. -/
def run (store : LogStore Name Entry) (ops : List (LogOp Name Entry)) :
    LogStore Name Entry :=
  ops.foldl apply store

/-! ## One operation -/

section Apply
variable {store : LogStore Name Entry} {name other : Name} {entry : Entry} {op : LogOp Name Entry}

@[simp] theorem run_nil (store : LogStore Name Entry) : store.run [] = store := rfl

@[simp] theorem run_cons (store : LogStore Name Entry) (op : LogOp Name Entry)
    (ops : List (LogOp Name Entry)) : store.run (op :: ops) = (store.apply op).run ops := rfl

@[simp] theorem run_append (store : LogStore Name Entry) (ops later : List (LogOp Name Entry)) :
    store.run (ops ++ later) = (store.run ops).run later := List.foldl_append

@[simp] theorem recent_append (store : LogStore Name Entry) (name : Name) (entry : Entry) :
    (store.apply (.append name entry)).recent =
      Function.update store.recent name (store.recent name ++ [entry]) := rfl

@[simp] theorem durable_append (store : LogStore Name Entry) (name : Name) (entry : Entry) :
    (store.apply (.append name entry)).durable = store.durable := rfl

theorem durable_flush (store : LogStore Name Entry) (written : Name → Bool) (name : Name) :
    (store.apply (.flush written)).durable name =
      if written name then store.entries name else store.durable name := rfl

theorem Keeps.apply (h : store.Keeps name entry) (hop : op ≠ .remove name) :
    (store.apply op).Keeps name entry := by
  obtain ⟨log, hlog, hmem⟩ := h
  cases op with
  | create other =>
    by_cases hname : name = other
    · subst hname
      exact ⟨log, by simp [LogStore.apply, hlog], hmem⟩
    · exact ⟨log, by simp [LogStore.apply, hname, hlog], hmem⟩
  | remove other =>
    have hname : name ≠ other := fun heq => hop (heq ▸ rfl)
    exact ⟨log, by simp [LogStore.apply, hname, hlog], hmem⟩
  | append _ _ | restart => exact ⟨log, hlog, hmem⟩
  | flush written =>
    rw [Keeps, durable_flush]
    split
    · exact ⟨log ++ store.recent name, by rw [entries, hlog]; rfl, List.mem_append_left _ hmem⟩
    · exact ⟨log, hlog, hmem⟩

theorem mem_recent_apply (h : entry ∈ store.recent name) (hop : op ≠ .restart) :
    entry ∈ (store.apply op).recent name := by
  cases op with
  | create _ | remove _ | flush _ => exact h
  | append other added =>
    rw [recent_append, Function.update_apply]
    split
    · rename_i hname
      exact List.mem_append_left _ (hname ▸ h)
    · exact h
  | restart => exact absurd rfl hop

theorem isSome_apply (h : (store.durable name).isSome) (hop : op ≠ .remove name) :
    ((store.apply op).durable name).isSome := by
  cases op with
  | create other =>
    by_cases hname : name = other
    · simp [LogStore.apply, hname]
    · simpa [LogStore.apply, hname] using h
  | remove other =>
    have hname : name ≠ other := fun heq => hop (heq ▸ rfl)
    simpa [LogStore.apply, hname] using h
  | append _ _ | restart => exact h
  | flush written =>
    rw [durable_flush]
    split
    · simpa [entries] using h
    · exact h

/-- A flush that writes a log makes its recent entries durable. -/
theorem keeps_flush {written : Name → Bool} (hname : written name)
    (hlog : (store.durable name).isSome) (h : entry ∈ store.recent name) :
    (store.apply (.flush written)).Keeps name entry := by
  obtain ⟨log, hlog⟩ := Option.isSome_iff_exists.mp hlog
  refine ⟨log ++ store.recent name, ?_, List.mem_append_right _ h⟩
  rw [durable_flush, if_pos hname, entries, hlog]
  rfl

/-- What is in a store was there before or was appended. -/
theorem has_of_apply (h : (store.apply op).Has name entry) :
    store.Has name entry ∨ op = .append name entry := by
  cases op with
  | create other =>
    refine .inl ?_
    rcases h with ⟨log, hlog, hmem⟩ | h
    · by_cases hname : name = other
      · subst hname
        obtain rfl : (store.durable name).getD [] = log := by simpa [LogStore.apply] using hlog
        cases hold : store.durable name with
        | none => simp [hold] at hmem
        | some old => exact .inl ⟨old, hold, by simpa [hold] using hmem⟩
      · exact .inl ⟨log, by simpa [LogStore.apply, hname] using hlog, hmem⟩
    · exact .inr h
  | remove other =>
    refine .inl ?_
    rcases h with ⟨log, hlog, hmem⟩ | h
    · by_cases hname : name = other
      · simp [LogStore.apply, hname] at hlog
      · exact .inl ⟨log, by simpa [LogStore.apply, hname] using hlog, hmem⟩
    · exact .inr h
  | append other added =>
    rcases h with h | h
    · exact .inl (.inl h)
    · rw [recent_append, Function.update_apply] at h
      split at h
      · rename_i hname
        subst hname
        rcases List.mem_append.mp h with h | h
        · exact .inl (.inr h)
        · exact .inr (by rw [List.mem_singleton.mp h])
      · exact .inl (.inr h)
  | flush written =>
    refine .inl ?_
    rcases h with ⟨log, hlog, hmem⟩ | h
    · rw [durable_flush] at hlog
      split at hlog
      · obtain ⟨old, hold, rfl⟩ := Option.map_eq_some_iff.mp hlog
        exact (List.mem_append.mp hmem).imp (fun hmem => ⟨old, hold, hmem⟩) id
      · exact .inl ⟨log, hlog, hmem⟩
    · exact .inr h
  | restart =>
    rcases h with h | h
    · exact .inl (.inl h)
    · exact absurd h List.not_mem_nil

end Apply

/-! ## Several operations -/

section Run
variable {store : LogStore Name Entry} {name : Name} {entry : Entry} {ops : List (LogOp Name Entry)}

/-- **Durable entries stay** until their log is removed. -/
theorem Keeps.run (h : store.Keeps name entry) (hops : .remove name ∉ ops) :
    (store.run ops).Keeps name entry := by
  induction ops generalizing store with
  | nil => exact h
  | cons op ops ih =>
    obtain ⟨hop, hops⟩ := List.ne_and_not_mem_of_not_mem_cons hops
    exact ih (h.apply (Ne.symm hop)) hops

/-- Recent entries stay until a restart. -/
theorem mem_recent_run (h : entry ∈ store.recent name) (hops : .restart ∉ ops) :
    entry ∈ (store.run ops).recent name := by
  induction ops generalizing store with
  | nil => exact h
  | cons op ops ih =>
    obtain ⟨hop, hops⟩ := List.ne_and_not_mem_of_not_mem_cons hops
    exact ih (mem_recent_apply h (Ne.symm hop)) hops

/-- What is appended is recent. -/
theorem mem_recent_of_append (h : .append name entry ∈ ops) (hops : .restart ∉ ops) :
    entry ∈ (store.run ops).recent name := by
  induction ops generalizing store with
  | nil => exact absurd h List.not_mem_nil
  | cons op ops ih =>
    obtain ⟨-, hrest⟩ := List.ne_and_not_mem_of_not_mem_cons hops
    rcases List.mem_cons.mp h with rfl | h
    · rw [run_cons]
      refine mem_recent_run ?_ hrest
      rw [recent_append, Function.update_self]
      exact List.mem_append_right _ (List.mem_singleton.mpr rfl)
    · exact ih h hrest

theorem isSome_run (h : (store.durable name).isSome) (hops : .remove name ∉ ops) :
    ((store.run ops).durable name).isSome := by
  induction ops generalizing store with
  | nil => exact h
  | cons op ops ih =>
    obtain ⟨hop, hops⟩ := List.ne_and_not_mem_of_not_mem_cons hops
    exact ih (isSome_apply h (Ne.symm hop)) hops

/-- **Nothing is made up.** -/
theorem has_of_run (h : (store.run ops).Has name entry) :
    store.Has name entry ∨ .append name entry ∈ ops := by
  induction ops generalizing store with
  | nil => exact .inl h
  | cons op ops ih =>
    rcases ih h with h | h
    · rcases has_of_apply h with h | rfl
      · exact .inl h
      · exact .inr List.mem_cons_self
    · exact .inr (List.mem_cons_of_mem _ h)

omit [DecidableEq Name] in
theorem not_has_empty : ¬ (empty : LogStore Name Entry).Has name entry := by
  rintro (⟨log, hlog, -⟩ | h)
  · cases hlog
  · exact absurd h List.not_mem_nil

end Run

end LogStore

end Lissandra
