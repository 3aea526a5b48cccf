import Mathlib.Order.Basic
import Mathlib.Data.List.Basic

/-! # The newest entry of a key

A list with an entry for each of some keys, where an entry carries the time of its version.
An incoming entry takes the place of an older one of its key and does not harm a newer one;
without one of its key it is appended, if it is of a kind that is kept.  After any number of
incoming entries the entry of a key is the one that it was, or a newer one
(`lookup_foldl_refresh`, `foldl_supersede`).
-/
namespace Lissandra

variable {E K T : Type*} (key : E → K) (time : E → T) [DecidableEq K]

/-- The entry of a key. -/
def lookup (k : K) (entries : List E) : Option E := entries.find? fun entry => key entry = k

/-- What is left of two versions. -/
def supersede [LT T] [DecidableLT T] (existing new : E) : E :=
  if time existing < time new then new else existing

/-- An incoming entry. -/
def refresh [LT T] [DecidableLT T] (keep : E → Bool) : List E → E → List E
  | [], new => if keep new then [new] else []
  | existing :: rest, new =>
    if key existing = key new then supersede time existing new :: rest
    else existing :: refresh keep rest new

section Lookup
variable [LT T] [DecidableLT T] {key time} {keep : E → Bool} {entries incoming : List E}
  {existing new entry : E} {k : K}

theorem lookup_cons_of_eq (h : key existing = k) :
    lookup key k (existing :: entries) = some existing := by
  unfold lookup
  exact List.find?_cons_of_pos (by simpa using h)

theorem lookup_cons_of_ne (h : key existing ≠ k) :
    lookup key k (existing :: entries) = lookup key k entries := by
  unfold lookup
  exact List.find?_cons_of_neg (by simpa using h)

theorem key_of_lookup (h : lookup key k entries = some entry) : key entry = k := by
  have hfound := List.find?_some h
  exact of_decide_eq_true hfound

omit [DecidableEq K] in
theorem key_supersede (h : key existing = key new) :
    key (supersede time existing new) = key new := by
  unfold supersede
  split
  · rfl
  · exact h

/-- An entry of another key. -/
theorem lookup_refresh_of_ne (hne : key new ≠ k) :
    lookup key k (refresh key time keep entries new) = lookup key k entries := by
  induction entries with
  | nil =>
    unfold refresh
    split
    · rw [lookup_cons_of_ne hne]
    · rfl
  | cons first rest ih =>
    unfold refresh
    split
    · rename_i hsame
      have hleft : key (supersede time first new) ≠ k := by
        rw [key_supersede hsame]
        exact hne
      rw [lookup_cons_of_ne hleft, lookup_cons_of_ne (hsame ▸ hne)]
    · by_cases hfirst : key first = k
      · rw [lookup_cons_of_eq hfirst, lookup_cons_of_eq hfirst]
      · rw [lookup_cons_of_ne hfirst, lookup_cons_of_ne hfirst, ih]

/-- An entry of a key that has one. -/
theorem lookup_refresh_of_some (h : lookup key (key new) entries = some existing) :
    lookup key (key new) (refresh key time keep entries new) =
      some (supersede time existing new) := by
  induction entries with
  | nil => cases h
  | cons first rest ih =>
    unfold refresh
    split
    · rename_i hsame
      rw [lookup_cons_of_eq hsame] at h
      obtain rfl := Option.some.inj h
      exact lookup_cons_of_eq (key_supersede hsame)
    · rename_i hother
      rw [lookup_cons_of_ne hother] at h ⊢
      exact ih h

/-- All that is there after an incoming entry was there before, or came in. -/
theorem mem_refresh (h : entry ∈ refresh key time keep entries new) :
    entry ∈ entries ∨ entry = new := by
  induction entries with
  | nil =>
    unfold refresh at h
    split at h
    · exact .inr (List.mem_singleton.mp h)
    · exact absurd h List.not_mem_nil
  | cons first rest ih =>
    unfold refresh at h
    split at h
    · rcases List.mem_cons.mp h with rfl | hrest
      · unfold supersede
        split
        · exact .inr rfl
        · exact .inl List.mem_cons_self
      · exact .inl (List.mem_cons_of_mem _ hrest)
    · rcases List.mem_cons.mp h with rfl | hrest
      · exact .inl List.mem_cons_self
      · exact (ih hrest).imp_left (List.mem_cons_of_mem _)

theorem mem_foldl_refresh (h : entry ∈ incoming.foldl (refresh key time keep) entries) :
    entry ∈ entries ∨ entry ∈ incoming := by
  induction incoming generalizing entries with
  | nil => exact .inl h
  | cons new incoming ih =>
    rcases ih h with hentry | hrest
    · refine (mem_refresh hentry).imp_right fun heq => ?_
      rw [heq]
      exact List.mem_cons_self
    · exact .inr (List.mem_cons_of_mem _ hrest)

/-- **A list of incoming entries.**  What counts for a key are the incoming entries of it, in
their order. -/
theorem lookup_foldl_refresh (h : lookup key k entries = some existing) :
    lookup key k (incoming.foldl (refresh key time keep) entries) =
      some ((incoming.filter fun entry => key entry = k).foldl (supersede time) existing) := by
  induction incoming generalizing entries existing with
  | nil => exact h
  | cons new incoming ih =>
    by_cases hnew : key new = k
    · subst hnew
      rw [List.filter_cons_of_pos (by simp)]
      exact ih (lookup_refresh_of_some h)
    · rw [List.filter_cons_of_neg (by simpa using hnew)]
      exact ih ((lookup_refresh_of_ne hnew).trans h)

end Lookup

/-- What holds of an entry and of all newer ones that come in, holds of the one that is left. -/
theorem foldl_supersede [Preorder T] [DecidableLT T] {time : E → T} {P : E → Prop} {existing : E}
    {incoming : List E} (hexisting : P existing)
    (hnewer : ∀ entry ∈ incoming, time existing < time entry → P entry) :
    P (incoming.foldl (supersede time) existing) := by
  induction incoming generalizing existing with
  | nil => exact hexisting
  | cons new incoming ih =>
    rw [List.foldl_cons]
    unfold supersede
    split
    · rename_i hlt
      refine ih (hnewer new List.mem_cons_self hlt) fun entry hmem hentry => ?_
      exact hnewer entry (List.mem_cons_of_mem _ hmem) (hlt.trans hentry)
    · exact ih hexisting fun entry hmem => hnewer entry (List.mem_cons_of_mem _ hmem)

end Lissandra
