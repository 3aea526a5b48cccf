import Lissandra.NewestEntry
import Mathlib.Data.List.Nodup
import Mathlib.Logic.Function.Basic

/-! # Lists with one entry for each key

A list that is searched from the front and edited in place is a partial map from keys to
entries, as long as no two of its entries have the same key.  Putting an entry, removing the
entry of a key and replacing the list are then what they are for maps (`entryMap_put`,
`entryMap_remove`, `entryMap_eq_foldl`).
-/
namespace Lissandra

variable {E K : Type*} (key : E → K) [DecidableEq K]

/-- The list as a map. -/
def entryMap (entries : List E) (k : K) : Option E := lookup key k entries

/-- An entry takes the place of the first one of its key, or is appended. -/
def put : List E → E → List E
  | [], new => [new]
  | existing :: rest, new =>
    if key existing = key new then new :: rest else existing :: put rest new

/-- The first entry of a key is taken out. -/
def remove (k : K) : List E → List E
  | [] => []
  | existing :: rest => if key existing = k then rest else existing :: remove k rest

variable {key} {entries : List E} {existing new entry : E} {k : K}

/-! ## Keys -/

theorem lookup_eq_none_iff :
    lookup key k entries = none ↔ k ∉ entries.map key := by
  simp [lookup, List.find?_eq_none]

/-- A key that has no entry. -/
theorem put_of_not_mem (h : key new ∉ entries.map key) :
    put key entries new = entries ++ [new] := by
  induction entries with
  | nil => rfl
  | cons first rest ih =>
    rw [List.map_cons, List.mem_cons, not_or] at h
    obtain ⟨hfirst, hrest⟩ := h
    rw [put, if_neg fun heq => hfirst heq.symm, ih hrest, List.cons_append]

/-- A key that has an entry. -/
theorem map_key_put_of_mem (h : key new ∈ entries.map key) :
    (put key entries new).map key = entries.map key := by
  induction entries with
  | nil => cases h
  | cons first rest ih =>
    rw [put]
    split_ifs with hfirst
    · rw [List.map_cons, List.map_cons, hfirst]
    · rw [List.map_cons, List.mem_cons] at h
      rw [List.map_cons, List.map_cons, ih (h.resolve_left fun heq => hfirst heq.symm)]

theorem nodup_put (h : (entries.map key).Nodup) : ((put key entries new).map key).Nodup := by
  by_cases hmem : key new ∈ entries.map key
  · rw [map_key_put_of_mem hmem]
    exact h
  · rw [put_of_not_mem hmem, List.map_append, List.map_singleton, List.nodup_append]
    refine ⟨h, List.nodup_singleton _, ?_⟩
    rintro other hother _ hlast rfl
    rw [List.mem_singleton] at hlast
    exact hmem (hlast ▸ hother)

theorem remove_sublist (k : K) (entries : List E) : (remove key k entries).Sublist entries := by
  induction entries with
  | nil => exact .slnil
  | cons first rest ih =>
    rw [remove]
    split_ifs with hfirst
    · exact List.sublist_cons_self _ _
    · exact ih.cons_cons first

theorem nodup_remove (h : (entries.map key).Nodup) : ((remove key k entries).map key).Nodup :=
  h.sublist ((remove_sublist k entries).map key)

/-! ## The map -/

@[simp] theorem entryMap_nil : entryMap key ([] : List E) = fun _ => none := rfl

theorem entryMap_cons (existing : E) (entries : List E) :
    entryMap key (existing :: entries)
      = Function.update (entryMap key entries) (key existing) (some existing) := by
  funext k
  by_cases hk : k = key existing
  · subst hk
    rw [Function.update_self]
    exact lookup_cons_of_eq rfl
  · rw [Function.update_of_ne hk]
    exact lookup_cons_of_ne fun heq => hk heq.symm

theorem entryMap_put (entries : List E) (new : E) :
    entryMap key (put key entries new)
      = Function.update (entryMap key entries) (key new) (some new) := by
  induction entries with
  | nil => rw [put, entryMap_cons]
  | cons first rest ih =>
    rw [put]
    split_ifs with hfirst
    · rw [entryMap_cons, entryMap_cons, hfirst, Function.update_idem]
    · rw [entryMap_cons, entryMap_cons, ih, Function.update_comm hfirst]

/-- With different keys there is no second entry that a removal uncovers. -/
theorem entryMap_remove (h : (entries.map key).Nodup) (k : K) :
    entryMap key (remove key k entries) = Function.update (entryMap key entries) k none := by
  induction entries with
  | nil =>
    rw [remove, entryMap_nil]
    exact (Function.update_eq_self k _).symm
  | cons first rest ih =>
    rw [List.map_cons, List.nodup_cons] at h
    obtain ⟨hfirst, hrest⟩ := h
    rw [remove]
    split_ifs with hk
    · subst hk
      have hnone : entryMap key rest (key first) = none := lookup_eq_none_iff.mpr hfirst
      rw [entryMap_cons, Function.update_idem, ← hnone, Function.update_eq_self]
    · rw [entryMap_cons, entryMap_cons, ih hrest, Function.update_comm hk]

/-- Entries of new and different keys, put one after the other. -/
theorem foldl_put (h : (entries.map key).Nodup) : entries.foldl (put key) [] = entries := by
  have hadd : ∀ added : List E, ((added ++ entries).map key).Nodup →
      entries.foldl (put key) added = added ++ entries := by
    clear h
    induction entries with
    | nil => simp
    | cons first rest ih =>
      intro added hnodup
      have hnew : key first ∉ added.map key := by
        rw [List.map_append, List.map_cons, List.nodup_append] at hnodup
        exact fun hmem => hnodup.2.2 _ hmem _ List.mem_cons_self rfl
      rw [List.foldl_cons, put_of_not_mem hnew, ih]
      · rw [List.append_assoc, List.singleton_append]
      · rw [List.append_assoc, List.singleton_append]
        exact hnodup
  exact hadd [] h

/-- A list with different keys is the map that its entries make one after the other. -/
theorem entryMap_eq_foldl (h : (entries.map key).Nodup) :
    entryMap key entries
      = entries.foldl (fun map entry => Function.update map (key entry) (some entry))
        fun _ => none := by
  have hfold : ∀ added : List E, entryMap key (entries.foldl (put key) added)
      = entries.foldl (fun map entry => Function.update map (key entry) (some entry))
        (entryMap key added) := by
    clear h
    induction entries with
    | nil => exact fun added => rfl
    | cons first rest ih =>
      intro added
      rw [List.foldl_cons, List.foldl_cons, ih, entryMap_put]
  rw [← @entryMap_nil _ _ key, ← hfold [], foldl_put h]

end Lissandra
