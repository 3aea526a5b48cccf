import Lissandra.KeyedList
import Lissandra.LatestByKey

/-! # The last writer of a key

A list with one entry for each key that takes over whatever is newer (`refresh`) has, after any
sequence of entries, for each key the first latest one of all that it started with and that came
in (`lookup_foldl_refresh_eq_latest`).  So times do not go back, entries that came in before do
nothing when they come in again, and the order of the entries matters only where two of a key
have the same time.
-/
namespace Lissandra

variable {E K T : Type} [DecidableEq K] [LinearOrder T] {key : E → K} {time : E → T}
  {keep : E → Bool} {entries others incoming again : List E} {existing new entry : E} {k : K}

/-- Entries of a key with the same time are the same. -/
def DistinctTimes (key : E → K) (time : E → T) (entries : List E) : Prop :=
  ∀ a ∈ entries, ∀ b ∈ entries, key a = key b → time a = time b → a = b

/-! ## Lists with one entry for each key -/

theorem mem_of_lookup (h : lookup key k entries = some entry) : entry ∈ entries :=
  List.mem_of_find?_eq_some h

theorem lookup_of_mem (hnodup : (entries.map key).Nodup) (h : entry ∈ entries) :
    lookup key (key entry) entries = some entry := by
  induction entries with
  | nil => cases h
  | cons first rest ih =>
    obtain ⟨hfirst, hrest⟩ := List.nodup_cons.mp hnodup
    rcases List.mem_cons.mp h with rfl | hmem
    · exact lookup_cons_of_eq rfl
    · have hne : key first ≠ key entry := fun heq => hfirst (heq ▸ List.mem_map_of_mem hmem)
      rw [lookup_cons_of_ne hne]
      exact ih hrest hmem

/-- Two lists with one entry for each key, in which all keys have the same entries. -/
theorem perm_of_lookup_eq (hentries : (entries.map key).Nodup) (hothers : (others.map key).Nodup)
    (h : ∀ k, lookup key k entries = lookup key k others) : entries.Perm others := by
  rw [List.perm_ext_iff_of_nodup hentries.of_map hothers.of_map]
  intro entry
  constructor
  · intro hmem
    exact mem_of_lookup ((h (key entry)).symm.trans (lookup_of_mem hentries hmem))
  · intro hmem
    exact mem_of_lookup ((h (key entry)).trans (lookup_of_mem hothers hmem))

theorem lookup_eq_latest (h : (entries.map key).Nodup) :
    lookup key k entries = latest key time k entries := by
  have hunique : UniqueKeys key entries := h
  rw [latest, hunique.entriesOf_eq]
  unfold lookup
  cases entries.find? fun entry => key entry = k with
  | none => rfl
  | some entry => rfl

/-! ## One entry -/

/-- An incoming entry is put if there is none of its key that is as new. -/
theorem refresh_eq_put (hkeep : keep new)
    (h : ∀ existing ∈ lookup key (key new) entries, time existing < time new) :
    refresh key time keep entries new = put key entries new := by
  induction entries with
  | nil => rw [refresh, if_pos hkeep, put]
  | cons first rest ih =>
    rw [refresh, put]
    by_cases hfirst : key first = key new
    · rw [lookup_cons_of_eq hfirst] at h
      rw [if_pos hfirst, if_pos hfirst, supersede, if_pos (h first rfl)]
    · rw [lookup_cons_of_ne hfirst] at h
      rw [if_neg hfirst, if_neg hfirst, ih h]

/-- Otherwise it does nothing. -/
theorem refresh_of_le (h : lookup key (key new) entries = some existing)
    (hle : time new ≤ time existing) : refresh key time keep entries new = entries := by
  induction entries with
  | nil => cases h
  | cons first rest ih =>
    rw [refresh]
    by_cases hfirst : key first = key new
    · rw [lookup_cons_of_eq hfirst] at h
      obtain rfl := Option.some.inj h
      rw [if_pos hfirst, supersede, if_neg hle.not_gt]
    · rw [lookup_cons_of_ne hfirst] at h
      rw [if_neg hfirst, ih h]

theorem refresh_cases (hkeep : keep new) :
    refresh key time keep entries new = put key entries new ∨
      (refresh key time keep entries new = entries ∧ key new ∈ entries.map key) := by
  cases h : lookup key (key new) entries with
  | none =>
    refine .inl (refresh_eq_put hkeep ?_)
    rw [h]
    rintro existing ⟨⟩
  | some existing =>
    by_cases hlt : time existing < time new
    · refine .inl (refresh_eq_put hkeep ?_)
      rw [h]
      rintro other ⟨⟩
      exact hlt
    · refine .inr ⟨refresh_of_le h (not_lt.mp hlt), ?_⟩
      rw [← key_of_lookup h]
      exact List.mem_map_of_mem (mem_of_lookup h)

theorem nodup_refresh (hkeep : keep new) (h : (entries.map key).Nodup) :
    ((refresh key time keep entries new).map key).Nodup := by
  rcases @refresh_cases _ _ _ _ _ key time keep entries new hkeep with hput | ⟨hsame, -⟩
  · rw [hput]
    exact nodup_put h
  · rw [hsame]
    exact h

theorem mem_keys_refresh (hkeep : keep new) :
    k ∈ (refresh key time keep entries new).map key ↔ k ∈ entries.map key ∨ k = key new := by
  rcases @refresh_cases _ _ _ _ _ key time keep entries new hkeep with hput | ⟨hsame, hmem⟩
  · rw [hput]
    by_cases hmem : key new ∈ entries.map key
    · rw [map_key_put_of_mem hmem]
      exact ⟨.inl, fun h => h.elim id fun heq => heq ▸ hmem⟩
    · rw [put_of_not_mem hmem, List.map_append, List.mem_append, List.map_singleton,
        List.mem_singleton]
  · rw [hsame]
    exact ⟨.inl, fun h => h.elim id fun heq => heq ▸ hmem⟩

theorem lookup_refresh (hkeep : keep new) (k : K) :
    lookup key k (refresh key time keep entries new)
      = later time (lookup key k entries) (latest key time k [new]) := by
  by_cases hk : key new = k
  · subst hk
    have hnew : latest key time (key new) [new] = some new := by simp [latest, entriesOf]
    rw [hnew]
    cases h : lookup key (key new) entries with
    | none =>
      rw [refresh_eq_put hkeep (by simp [h]), later_none_left]
      have hput : entryMap key (put key entries new) (key new) = some new := by
        rw [entryMap_put, Function.update_self]
      exact hput
    | some existing =>
      rw [lookup_refresh_of_some h, later_some_some, supersede, apply_ite some]
  · have hnone : latest key time k [new] = none := by simp [latest, entriesOf, hk]
    rw [lookup_refresh_of_ne hk, hnone, later_none_right]

/-! ## Sequences of entries -/

section Sequences
variable (hkeep : ∀ new ∈ incoming, keep new)
include hkeep

theorem nodup_foldl_refresh (h : (entries.map key).Nodup) :
    ((incoming.foldl (refresh key time keep) entries).map key).Nodup := by
  induction incoming generalizing entries with
  | nil => exact h
  | cons new incoming ih =>
    rw [List.foldl_cons]
    apply ih
    · exact fun other hother => hkeep other (List.mem_cons_of_mem _ hother)
    · exact nodup_refresh (hkeep new List.mem_cons_self) h

/-- No key is lost, and there are no others than those that came in. -/
theorem mem_keys_foldl_refresh :
    k ∈ (incoming.foldl (refresh key time keep) entries).map key ↔
      k ∈ entries.map key ∨ k ∈ incoming.map key := by
  induction incoming generalizing entries with
  | nil => simp
  | cons new incoming ih =>
    have hrest : ∀ other ∈ incoming, keep other := fun other hother =>
      hkeep other (List.mem_cons_of_mem _ hother)
    rw [List.foldl_cons, ih hrest, mem_keys_refresh (hkeep new List.mem_cons_self),
      List.map_cons, List.mem_cons, or_assoc]

/-- **The last writer wins**, the first one of those with the same time. -/
theorem lookup_foldl_refresh_eq_latest (h : (entries.map key).Nodup) (k : K) :
    lookup key k (incoming.foldl (refresh key time keep) entries)
      = latest key time k (entries ++ incoming) := by
  have hfold : ∀ entries : List E, lookup key k (incoming.foldl (refresh key time keep) entries)
      = later time (lookup key k entries) (latest key time k incoming) := by
    clear h
    induction incoming with
    | nil =>
      intro entries
      exact (later_none_right _).symm
    | cons new incoming ih =>
      intro entries
      have hrest : ∀ other ∈ incoming, keep other := fun other hother =>
        hkeep other (List.mem_cons_of_mem _ hother)
      rw [List.foldl_cons, ih hrest, lookup_refresh (hkeep new List.mem_cons_self), later_assoc,
        ← latest_append, List.singleton_append]
  have hentries : lookup key k entries = latest key time k entries := lookup_eq_latest h
  rw [hfold, hentries, ← latest_append]

end Sequences

theorem latest_spec (h : latest key time k entries = some entry) :
    entry ∈ entries ∧ key entry = k ∧ ∀ other ∈ entries, key other = k →
      time other ≤ time entry := by
  have hentry : entry ∈ entriesOf key k entries := List.argmax_mem h
  obtain ⟨hmem, hkey⟩ := List.mem_filter.mp hentry
  refine ⟨hmem, of_decide_eq_true hkey, fun other hother hk => ?_⟩
  exact List.le_of_mem_argmax (List.mem_filter.mpr ⟨hother, decide_eq_true hk⟩) h

theorem exists_latest (h : entry ∈ entries) :
    ∃ newest, latest key time (key entry) entries = some newest := by
  have hne : entriesOf key (key entry) entries ≠ [] :=
    List.ne_nil_of_mem (List.mem_filter.mpr ⟨h, decide_eq_true rfl⟩)
  obtain ⟨newest, -, hnewest, -⟩ := exists_argmax time hne
  exact ⟨newest, hnewest⟩

/-- Entries that are not newer than those there are do nothing. -/
theorem foldl_refresh_of_le (h : ∀ new ∈ again, ∃ existing,
    lookup key (key new) entries = some existing ∧ time new ≤ time existing) :
    again.foldl (refresh key time keep) entries = entries := by
  induction again with
  | nil => rfl
  | cons new again ih =>
    obtain ⟨existing, hexisting, hle⟩ := h new List.mem_cons_self
    rw [List.foldl_cons, refresh_of_le hexisting hle]
    exact ih fun other hother => h other (List.mem_cons_of_mem _ hother)

/-- Where times are different, the latest entry does not depend on the order. -/
theorem latest_perm (hperm : entries.Perm others) (hdistinct : DistinctTimes key time entries) :
    latest key time k entries = latest key time k others := by
  cases h : latest key time k entries with
  | none =>
    have hnone : entriesOf key k entries = [] := List.argmax_eq_none.mp h
    have hothers := hperm.filter fun entry => key entry = k
    rw [entriesOf] at hnone
    rw [hnone, List.nil_perm] at hothers
    rw [latest, entriesOf, hothers]
    rfl
  | some entry =>
    obtain ⟨hmem, rfl, hle⟩ := latest_spec h
    obtain ⟨newest, hnewest⟩ := @exists_latest _ _ _ _ _ key time _ _ (hperm.mem_iff.mp hmem)
    obtain ⟨hnewestmem, hkey, hge⟩ := latest_spec hnewest
    have hnewestmem := hperm.mem_iff.mpr hnewestmem
    have htimes := le_antisymm (hge entry (hperm.mem_iff.mp hmem) rfl) (hle newest hnewestmem hkey)
    rw [hnewest, hdistinct entry hmem newest hnewestmem hkey.symm htimes]

end Lissandra
