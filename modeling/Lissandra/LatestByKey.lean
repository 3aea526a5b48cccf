import Lissandra.FirstMaximum

/-! # Keeping the latest entry of each key

Entries have a key and a rank.  A list with at most one entry for each key is kept up to
date by putting a new entry at the end, in place of the entry of its key if that one ranks
strictly lower (`upsert`).  The first highest entry of any key is then what it would be in
the list of everything that was ever put in (`latest_foldl_upsert`).  Several such lists,
with a rule that says which one a key belongs to, behave as one (`latest_distribute`).
-/
namespace Lissandra

section
variable {α κ β : Type} [DecidableEq κ] [LinearOrder β] (k : α → κ) (f : α → β)

/-- The entries of a key. -/
def entriesOf (key : κ) (l : List α) : List α := l.filter fun a => k a = key

/-- The first highest entry of a key. -/
def latest (key : κ) (l : List α) : Option α := (entriesOf k key l).argmax f

/-- At most one entry for each key. -/
def UniqueKeys (l : List α) : Prop := (l.map k).Nodup

/-- A new entry, unless the one of its key ranks as high. -/
def upsert (l : List α) (a : α) : List α :=
  match l.find? fun b => k b = k a with
  | some old => if f old < f a then l.eraseP (fun b => k b = k a) ++ [a] else l
  | none => l ++ [a]

/-- The entries put into the list that `route` says. -/
def distribute (route : κ → Nat) (l : List α) (ps : List (List α)) : List (List α) :=
  l.foldl (fun ps a => ps.modify (route (k a)) fun p => upsert k f p a) ps

variable {k f} {l m : List α} {a : α} {key : κ}

theorem entriesOf_append (key : κ) (l m : List α) :
    entriesOf k key (l ++ m) = entriesOf k key l ++ entriesOf k key m :=
  List.filter_append ..

theorem latest_append (key : κ) (l m : List α) :
    latest k f key (l ++ m) = later f (latest k f key l) (latest k f key m) := by
  rw [latest, entriesOf_append, argmax_append]
  rfl

/-- With unique keys the entries of a key are the one that a search finds. -/
theorem UniqueKeys.entriesOf_eq (h : UniqueKeys k l) (key : κ) :
    entriesOf k key l = (l.find? fun b => k b = key).toList := by
  induction l with
  | nil => rfl
  | cons b l ih =>
    obtain ⟨hb, hl⟩ := List.nodup_cons.mp h
    rw [entriesOf] at ih ⊢
    by_cases hkey : k b = key
    · have hnone : l.filter (fun a => k a = key) = [] := by
        rw [List.filter_eq_nil_iff]
        intro a ha heq
        exact hb (hkey ▸ of_decide_eq_true heq ▸ List.mem_map_of_mem ha)
      simp [hkey, hnone]
    · simpa [hkey] using ih hl

theorem UniqueKeys.entriesOf_eraseP (h : UniqueKeys k l) (old key : κ) :
    entriesOf k key (l.eraseP fun b => k b = old) = if key =
      old then [] else entriesOf k key l := by
  induction l with
  | nil => simp [entriesOf]
  | cons b l ih =>
    obtain ⟨hb, hl⟩ := List.nodup_cons.mp h
    by_cases hold : k b = old
    · rw [List.eraseP_cons_of_pos (by simpa using hold)]
      by_cases hkey : key = old
      · rw [if_pos hkey, entriesOf, List.filter_eq_nil_iff]
        intro a ha heq
        refine hb (List.mem_map.mpr ⟨a, ha, ?_⟩)
        rw [hold, of_decide_eq_true heq, hkey]
      · have hne : k b ≠ key := fun heq => hkey (heq.symm.trans hold)
        simp [hkey, entriesOf, hne]
    · rw [List.eraseP_cons_of_neg (by simpa using hold)]
      have hrest := ih hl
      rw [entriesOf] at hrest ⊢
      by_cases hkey : k b = key
      · have hne : key ≠ old := fun heq => hold (hkey.trans heq)
        rw [if_neg hne] at hrest ⊢
        rw [entriesOf] at hrest ⊢
        simp [hkey, hrest]
      · rw [entriesOf] at hrest ⊢
        simp [hkey, hrest]

theorem UniqueKeys.upsert (h : UniqueKeys k l) (a : α) : UniqueKeys k (upsert k f l a) := by
  -- A list without the key of `a` takes it at the end.
  have happend : ∀ m : List α, UniqueKeys k m → entriesOf k (k a) m = [] →
    UniqueKeys k (m ++ [a]) := by
    intro m hm hnone
    rw [UniqueKeys, List.map_append, List.nodup_append]
    refine ⟨hm, by simp, ?_⟩
    rintro key hmem _ hsingle rfl
    obtain ⟨b, hb, hkey⟩ := List.mem_map.mp hmem
    rw [List.map_singleton, List.mem_singleton] at hsingle
    have hentry : b ∈ entriesOf k (k a) m :=
      List.mem_filter.mpr ⟨hb, decide_eq_true (hkey.trans hsingle)⟩
    rw [hnone] at hentry
    exact absurd hentry List.not_mem_nil
  rw [Lissandra.upsert]
  cases hfind : l.find? fun b => k b = k a with
  | some old =>
    dsimp only
    split
    · refine happend _ (h.sublist (List.eraseP_sublist.map k)) ?_
      rw [h.entriesOf_eraseP, if_pos rfl]
    · exact h
  | none =>
    refine happend l h ?_
    rw [h.entriesOf_eq, hfind]
    rfl

/-- **One entry.** -/
theorem UniqueKeys.latest_upsert (h : UniqueKeys k l) (a : α) (key : κ) :
    latest k f key (Lissandra.upsert k f l a) = latest k f key (l ++ [a]) := by
  rw [Lissandra.upsert]
  cases hfind : l.find? fun b => k b = k a with
  | none => rfl
  | some old =>
    have hentry : latest k f (k a) l = some old := by
      rw [latest, h.entriesOf_eq, hfind]
      rfl
    dsimp only
    by_cases hkey : key = k a
    · subst hkey
      have hnew : latest k f (k a) [a] = some a := by simp [latest, entriesOf]
      rw [latest_append, hentry, hnew, later_some_some]
      split
      · rw [latest_append, latest, h.entriesOf_eraseP, if_pos rfl, hnew]
        rfl
      · exact hentry
    · have hnew : latest k f key [a] = none := by simp [latest, entriesOf, Ne.symm hkey]
      rw [latest_append, hnew, later_none_right]
      split
      · rw [latest_append, hnew, later_none_right, latest, h.entriesOf_eraseP, if_neg hkey]
        rfl
      · rfl

theorem UniqueKeys.foldl_upsert (h : UniqueKeys k l) (m : List α) :
    UniqueKeys k (m.foldl (Lissandra.upsert k f) l) := by
  induction m generalizing l with
  | nil => exact h
  | cons a m ih => exact ih (h.upsert a)

/-- **A list of entries, one after the other.** -/
theorem UniqueKeys.latest_foldl_upsert (h : UniqueKeys k l) (m : List α) (key : κ) :
    latest k f key (m.foldl (Lissandra.upsert k f) l) = latest k f key (l ++ m) := by
  induction m generalizing l with
  | nil => rw [List.foldl_nil, List.append_nil]
  | cons a m ih =>
    rw [List.foldl_cons, ih (h.upsert a), latest_append, h.latest_upsert, ← latest_append,
      List.append_assoc, List.singleton_append]

theorem mem_foldl_upsert {b : α} (hb : b ∈ m.foldl (Lissandra.upsert k f) l) : b ∈ l ∨ b ∈ m := by
  induction m generalizing l with
  | nil => exact Or.inl hb
  | cons a m ih =>
    rcases ih hb with hl | hm
    · rw [Lissandra.upsert] at hl
      have happend : ∀ l' : List α, l' ⊆ l → b ∈ l' ++ [a] → b ∈ l ∨ b ∈ a :: m := by
        intro l' hsub hmem
        rcases List.mem_append.mp hmem with hmem | hmem
        · exact Or.inl (hsub hmem)
        · exact Or.inr (List.mem_singleton.mp hmem ▸ List.mem_cons_self)
      split at hl
      · split at hl
        · exact happend _ List.eraseP_subset hl
        · exact Or.inl hl
      · exact happend l (List.Subset.refl l) hl
    · exact Or.inr (List.mem_cons_of_mem _ hm)

/-! ## Several lists -/

variable {route : κ → Nat} {ps : List (List α)}

/-- Each list has unique keys, all of them its own. -/
def Routed (k : α → κ) (route : κ → Nat) (ps : List (List α)) : Prop :=
  ∀ i p, ps[i]? = some p → UniqueKeys k p ∧ ∀ a ∈ p, route (k a) = i

@[simp] theorem length_distribute (l : List α) (ps : List (List α)) :
    (distribute k f route l ps).length = ps.length := by
  rw [distribute]
  induction l generalizing ps with
  | nil => rfl
  | cons a l ih => rw [List.foldl_cons, ih, List.length_modify]

/-- A list takes the entries whose keys belong to it. -/
theorem getElem?_distribute (l : List α) (ps : List (List α)) (i : Nat) :
    (distribute k f route l ps)[i]? =
      ps[i]?.map fun p => (l.filter fun a => route (k a) = i).foldl (Lissandra.upsert k f) p := by
  rw [distribute]
  induction l generalizing ps with
  | nil => simp
  | cons a l ih =>
    rw [List.foldl_cons, ih, List.getElem?_modify]
    by_cases hi : route (k a) = i
    · simp [hi, Function.comp_def]
    · simp [hi]

/-- Entries are put in, none is made up. -/
theorem mem_distribute {p : List α} (hp : p ∈ distribute k f route l ps) (ha : a ∈ p) :
    (∃ q ∈ ps, a ∈ q) ∨ a ∈ l := by
  obtain ⟨i, hi⟩ := List.mem_iff_getElem?.mp hp
  rw [getElem?_distribute] at hi
  obtain ⟨q, hq, rfl⟩ := Option.map_eq_some_iff.mp hi
  rcases mem_foldl_upsert ha with ha | ha
  · exact Or.inl ⟨q, List.mem_of_getElem? hq, ha⟩
  · exact Or.inr (List.mem_of_mem_filter ha)

theorem Routed.distribute (h : Routed k route ps) (l : List α) :
    Routed k route (distribute k f route l ps) := by
  intro i p hp
  rw [getElem?_distribute] at hp
  obtain ⟨q, hq, rfl⟩ := Option.map_eq_some_iff.mp hp
  obtain ⟨hunique, hroute⟩ := h i q hq
  refine ⟨hunique.foldl_upsert _, fun a ha => ?_⟩
  rcases mem_foldl_upsert ha with ha | ha
  · exact hroute a ha
  · exact of_decide_eq_true (List.mem_filter.mp ha).2

/-- **The list a key belongs to** says what all the entries say. -/
theorem Routed.latest_distribute (f : α → β) (h : Routed k route ps) (l : List α) {p : List α}
    (hp : ps[route key]? = some p) :
    ∃ q, (Lissandra.distribute k f route l ps)[route key]? = some q ∧
      latest k f key q = latest k f key (p ++ l) := by
  refine ⟨_, by rw [getElem?_distribute, hp]; rfl, ?_⟩
  have hentries : entriesOf k key (l.filter fun a => route (k a) = route key) =
    entriesOf k key l := by
    rw [entriesOf, entriesOf, List.filter_filter]
    refine List.filter_congr fun a _ => ?_
    by_cases hkey : k a = key
    · simp [hkey]
    · simp [hkey]
  rw [(h _ p hp).1.latest_foldl_upsert, latest_append, latest_append, latest, latest, latest,
    hentries]

end

end Lissandra
