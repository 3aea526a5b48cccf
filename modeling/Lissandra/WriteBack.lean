import Lissandra.FirstMaximum

/-! # A write-back cache over a store that keeps everything

One place of the cache holds copies of records; the store behind it holds all records that
were ever written to it, and answers with the first latest one.  A copy is modified when
the store may not have it yet.  `Coherent` says what a cache must keep to for reads through
it to be reads of the last record written: the first copy is this record, the copies behind
it are unmodified, and where the first copy is unmodified, or there is none, the store
answers with it.

The operations of such a cache keep it: a write over the first copy, filling from the
store, evicting an unmodified copy, storing modified copies at any moment, and throwing
away all copies once the store has the first one.

Several caches may share the store (`CoherentCaches`).  Each of them may do any of this while no
other one has a copy (`coherentCaches_write`), and all but writing while no other one has a modified
copy (`CoherentCaches.read`).
-/
namespace Lissandra

section WriteBack
variable {R β : Type} [LinearOrder β]

/-- A record in a cache. -/
structure Copy (R : Type) where
  record : R
  modified : Bool
  deriving DecidableEq

/-- The record is the current one, or was overwritten by a later one. -/
def Behind (time : R → β) (current : Option R) (record : R) : Prop :=
  ∃ last, current = some last ∧ (time record < time last ∨ record = last)

/-- One place of the cache and of the store, where `current` was written last. -/
structure Coherent (time : R → β) (store : List R) (current : Option R) (copies : List (Copy R)) :
    Prop where
  head : ∀ copy ∈ copies.head?, current = some copy.record
  tail : ∀ copy ∈ copies.tail, copy.modified = false
  unmodified : (∀ copy ∈ copies.head?, copy.modified = false) →
    store.argmax time = current ∧ ∀ copy ∈ copies, current = some copy.record
  modified : (∃ copy ∈ copies.head?, copy.modified = true) → ∀ record ∈ store,
    Behind time current record

variable {time : R → β} {store : List R} {current : Option R} {copies before after : List (Copy R)}
  {copy : Copy R} {record last : R}

/-! ## Reading -/

theorem Coherent.hit (h : Coherent time store current (copy :: copies)) :
    current = some copy.record :=
  h.head copy rfl

theorem Coherent.miss (h : Coherent time store current []) : store.argmax time = current :=
  (h.unmodified fun _ hmem => absurd hmem (by simp)).1

/-- Only the first copy may be modified. -/
theorem Coherent.of_modified (h : Coherent time store current copies) (hmem : copy ∈ copies)
    (hmodified : copy.modified = true) : copies.head? = some copy ∧ current = some copy.record := by
  cases copies with
  | nil => exact absurd hmem List.not_mem_nil
  | cons first rest =>
    rcases List.mem_cons.mp hmem with rfl | hrest
    · exact ⟨rfl, h.hit⟩
    · exact absurd (h.tail copy hrest) (by simp [hmodified])

/-- Nothing in the store is later than the current record. -/
theorem Coherent.le (h : Coherent time store current copies) (hmem : record ∈ store) :
    ∃ last, current = some last ∧ time record ≤ time last := by
  by_cases hmodified : ∃ copy ∈ copies.head?, copy.modified = true
  · obtain ⟨last, hlast, hlt | rfl⟩ := h.modified hmodified record hmem
    · exact ⟨last, hlast, hlt.le⟩
    · exact ⟨record, hlast, le_rfl⟩
  · have hmax := (h.unmodified fun copy hcopy => by
      by_contra hne
      exact hmodified ⟨copy, hcopy, by simpa using hne⟩).1
    obtain ⟨last, hlast⟩ := Option.ne_none_iff_exists'.mp fun hnone : store.argmax time = none => by
      rw [List.argmax_eq_none.mp hnone] at hmem
      exact List.not_mem_nil hmem
    exact ⟨last, hmax.symm.trans hlast, List.le_of_mem_argmax hmem hlast⟩

/-! ## The store -/

/-- Late records do not change what a store answers with. -/
theorem argmax_append_of_behind {late : List R}
    (hbehind : ∀ record ∈ late, Behind time current record)
    (hcurrent : store.argmax time = current) : (store ++ late).argmax time = current := by
  rw [argmax_append, hcurrent]
  refine later_of_le fun record hrecord => ?_
  obtain ⟨last, hlast, hlt | rfl⟩ := hbehind record (List.argmax_mem hrecord)
  · exact ⟨last, hlast, hlt.le⟩
  · exact ⟨record, hlast, le_rfl⟩

/-- What a store answers with is never replaced by something older. -/
theorem Behind.append {late : List R} (h : Behind time (store.argmax time) record) :
    Behind time ((store ++ late).argmax time) record := by
  obtain ⟨best, hbest, hbehind⟩ := h
  rw [Lissandra.argmax_append, hbest]
  cases hlate : late.argmax time with
  | none => exact ⟨best, rfl, hbehind⟩
  | some other =>
    rw [later_some_some]
    split
    · rename_i hlt
      refine ⟨other, rfl, Or.inl ?_⟩
      rcases hbehind with hrecord | rfl
      · exact hrecord.trans hlt
      · exact hlt
    · exact ⟨best, rfl, hbehind⟩

/-- Records that arrive in the store late. -/
theorem Coherent.append_store (h : Coherent time store current copies) {batch : List R}
    (hbehind : ∀ record ∈ batch, Behind time current record) :
    Coherent time (store ++ batch) current copies := by
  refine ⟨h.head, h.tail, fun hhead => ?_, fun hhead other hmem => ?_⟩
  · obtain ⟨hstore, hall⟩ := h.unmodified hhead
    exact ⟨argmax_append_of_behind hbehind hstore, hall⟩
  · rcases List.mem_append.mp hmem with hmem | hmem
    · exact h.modified hhead other hmem
    · exact hbehind other hmem

/-- A store that has the current record and otherwise only older ones answers with it. -/
theorem argmax_eq_of_behind (hmem : last ∈ store)
    (hbehind : ∀ record ∈ store, Behind time (some last) record) :
    store.argmax time = some last := by
  cases hmax : store.argmax time with
  | none => rw [List.argmax_eq_none.mp hmax] at hmem; exact absurd hmem List.not_mem_nil
  | some best =>
    obtain ⟨_, hlast, hbest⟩ := hbehind best (List.argmax_mem hmax)
    obtain rfl := Option.some.inj hlast
    rcases hbest with hlt | rfl
    · exact absurd hlt (List.le_of_mem_argmax hmem hmax).not_gt
    · rfl

/-! ## Operations of the cache -/

theorem Coherent.write (h : Coherent time store current copies)
    (hlater : ∀ other ∈ store, time other < time record) :
    Coherent time store (some record) (⟨record, true⟩ :: copies.tail) where
  head := by
    rintro copy hcopy
    obtain rfl := Option.some.inj hcopy
    rfl
  tail := h.tail
  unmodified hhead := absurd (hhead ⟨record, true⟩ rfl) (by simp)
  modified _ other hmem := ⟨record, rfl, Or.inl (hlater other hmem)⟩

theorem Coherent.fill (h : Coherent time store (some record) copies) :
    Coherent time store (some record) (copies ++ [⟨record, false⟩]) := by
  cases copies with
  | nil =>
    refine ⟨?_, fun _ hmem => absurd hmem (by simp), fun _ => ⟨h.miss, ?_⟩, ?_⟩
    · rintro copy hcopy
      obtain rfl := Option.some.inj hcopy
      rfl
    · intro copy hmem
      rw [List.nil_append, List.mem_singleton] at hmem
      rw [hmem]
    · rintro ⟨copy, hcopy, hmodified⟩
      obtain rfl := Option.some.inj hcopy
      exact absurd hmodified (by simp)
  | cons first rest =>
    refine ⟨h.head, fun copy hmem => ?_, fun hhead => ⟨(h.unmodified hhead).1, fun copy hmem => ?_⟩,
      h.modified⟩
    · rcases List.mem_append.mp hmem with hmem | hmem
      · exact h.tail copy hmem
      · rw [List.mem_singleton.mp hmem]
    · rcases List.mem_append.mp hmem with hmem | hmem
      · exact (h.unmodified hhead).2 copy hmem
      · rw [List.mem_singleton.mp hmem]

theorem Coherent.evict (h : Coherent time store current (before ++ copy :: after))
    (hclean : copy.modified = false) : Coherent time store current (before ++ after) := by
  cases before with
  | nil =>
    have hhead : ∀ first ∈ (copy :: after).head?, first.modified = false := by
      intro first hfirst
      obtain rfl := Option.some.inj hfirst
      exact hclean
    obtain ⟨hstore, hall⟩ := h.unmodified hhead
    have hafter : ∀ other ∈ after, current = some other.record :=
      fun other hmem => hall other (List.mem_cons_of_mem _ hmem)
    refine ⟨fun other hmem => hafter other (List.mem_of_mem_head? hmem),
      fun other hmem => h.tail other (List.mem_of_mem_tail hmem), fun _ => ⟨hstore, hafter⟩, ?_⟩
    rintro ⟨other, hother, hmodified⟩
    exact absurd (h.tail other (List.mem_of_mem_head? hother)) (by simp [hmodified])
  | cons first rest =>
    have hsub : ∀ other ∈ rest ++ after, other ∈ rest ++ copy :: after := by
      intro other hmem
      rw [List.mem_append] at hmem ⊢
      exact hmem.imp_right (List.mem_cons_of_mem _)
    refine ⟨h.head, fun other hmem => h.tail other (hsub other hmem),
      fun hhead => ⟨(h.unmodified hhead).1, fun other hmem => (h.unmodified hhead).2 other ?_⟩,
      h.modified⟩
    rcases List.mem_cons.mp hmem with rfl | hmem
    · exact List.mem_cons_self
    · exact List.mem_cons_of_mem _ (hsub other hmem)

/-- All copies may go when the store has what was modified. -/
theorem Coherent.wipe (h : Coherent time store current copies)
    (hstored : ∀ copy ∈ copies, copy.modified = true → copy.record ∈ store) :
    Coherent time store current [] := by
  refine ⟨fun _ hmem => absurd hmem (by simp), fun _ hmem => absurd hmem (by simp),
    fun _ => ⟨?_, fun _ hmem => absurd hmem List.not_mem_nil⟩, ?_⟩
  · by_cases hmodified : ∃ copy ∈ copies.head?, copy.modified = true
    · obtain ⟨copy, hcopy, hcopyModified⟩ := hmodified
      have hcurrent := h.head copy hcopy
      rw [hcurrent]
      refine argmax_eq_of_behind (hstored copy (List.mem_of_mem_head? hcopy) hcopyModified) ?_
      rw [← hcurrent]
      exact h.modified ⟨copy, hcopy, hcopyModified⟩
    · refine (h.unmodified fun copy hcopy => ?_).1
      by_contra hne
      exact hmodified ⟨copy, hcopy, by simpa using hne⟩
  · rintro ⟨_, hmem, -⟩
    exact absurd hmem (by simp)

/-! ## Several caches over one store -/

/-- What a cache takes for the current record: without copies, what the store answers with. -/
def known (time : R → β) (store : List R) (current : Option R) : List (Copy R) → Option R
  | [] => firstMaximum time store
  | _ :: _ => current

/-- Caches that share a store: the one with a modified copy is alone with it, and where there
is none the store answers with the current record. -/
structure CoherentCaches {ι : Type} (time : R → β) (store : List R) (current : Option R)
    (caches : ι → List (Copy R)) : Prop where
  coherent : ∀ i, caches i ≠ [] → Coherent time store current (caches i)
  alone : ∀ i, (∃ copy ∈ caches i, copy.modified = true) → ∀ j, j ≠ i → caches j = []
  resting : (∀ i, ∀ copy ∈ caches i, copy.modified = false) → store.argmax time = current

/-- Without copies there is nothing to keep to but the answer of the store. -/
theorem coherent_nil (h : store.argmax time = current) : Coherent time store current [] := by
  refine ⟨fun _ hmem => absurd hmem (by simp), fun _ hmem => absurd hmem (by simp),
    fun _ => ⟨h, fun _ hmem => absurd hmem List.not_mem_nil⟩, ?_⟩
  rintro ⟨_, hmem, -⟩
  exact absurd hmem (by simp)

section Caches
variable {ι : Type} {caches : ι → List (Copy R)} {store' : List R} {current' : Option R} {i : ι}

theorem known_of_ne_nil (h : copies ≠ []) : known time store current copies = current := by
  cases copies with
  | nil => exact absurd rfl h
  | cons copy copies => rfl

/-- Caches without copies. -/
theorem coherentCaches_start : CoherentCaches time store (store.argmax time) fun _ : ι => [] :=
  ⟨fun _ hne => absurd rfl hne, fun _ _ _ _ => rfl, fun _ => rfl⟩

/-- Every cache is coherent with what it takes for the current record. -/
theorem CoherentCaches.known_coherent (h : CoherentCaches time store current caches) (i : ι) :
    Coherent time store (known time store current (caches i)) (caches i) := by
  cases hcopies : caches i with
  | nil => exact coherent_nil rfl
  | cons copy copies =>
    have hcoherent := h.coherent i (by rw [hcopies]; exact List.cons_ne_nil _ _)
    rw [hcopies] at hcoherent
    exact hcoherent

/-- It is right about it when no other cache has a modified copy. -/
theorem CoherentCaches.known_eq (h : CoherentCaches time store current caches)
    (hothers : ∀ j, j ≠ i → ∀ copy ∈ caches j, copy.modified = false) :
    known time store current (caches i) = current := by
  cases hcopies : caches i with
  | nil =>
    apply h.resting
    intro j copy hmem
    by_cases hji : j = i
    · rw [hji, hcopies] at hmem
      exact absurd hmem List.not_mem_nil
    · exact hothers j hji copy hmem
  | cons copy copies => rfl

/-- Where another cache has copies, none is modified. -/
theorem CoherentCaches.unmodified (h : CoherentCaches time store current caches) {j : ι}
    (hji : j ≠ i) (hj : caches j ≠ []) : ∀ copy ∈ caches i, copy.modified = false := by
  intro copy hmem
  by_contra hmodified
  exact hj (h.alone i ⟨copy, hmem, by simpa using hmodified⟩ j hji)

variable [DecidableEq ι]

/-- A cache that is alone with a key does as it likes. -/
theorem coherentCaches_write (hothers : ∀ j, j ≠ i → caches j = [])
    (hcoherent : Coherent time store' current' copies) :
    CoherentCaches time store' current' (Function.update caches i copies) := by
  have hnil : ∀ j, j ≠ i → Function.update caches i copies j = [] := fun j hji => by
    rw [Function.update_of_ne hji, hothers j hji]
  refine ⟨fun j hne => ?_, fun j hmodified k hkj => ?_, fun hclean => ?_⟩
  · by_cases hji : j = i
    · rwa [hji, Function.update_self]
    · exact absurd (hnil j hji) hne
  · by_cases hji : j = i
    · exact hnil k (hji ▸ hkj)
    · obtain ⟨copy, hmem, -⟩ := hmodified
      rw [hnil j hji] at hmem
      exact absurd hmem List.not_mem_nil
  · have hall := hclean i
    rw [Function.update_self] at hall
    exact (hcoherent.unmodified fun copy hcopy => hall copy (List.mem_of_mem_head? hcopy)).1

/-- A cache that writes nothing, stores nothing but what it has modified, and fetches a copy
only while no other cache has a modified one. -/
theorem CoherentCaches.read (h : CoherentCaches time store current caches)
    (hcoherent : Coherent time store' (known time store current (caches i)) copies)
    (hstore : (∀ copy ∈ caches i, copy.modified = false) → store' = store)
    (hmodified : ∀ copy ∈ copies, copy.modified = true → copy ∈ caches i)
    (hfetch : caches i = [] → copies ≠ [] → ∀ j, j ≠ i → ∀ copy ∈ caches j, copy.modified = false) :
    CoherentCaches time store' current (Function.update caches i copies) := by
  cases hcopies : caches i with
  | nil =>
    -- a miss stores nothing, and what it fetches is not modified
    obtain rfl := hstore fun copy hmem => by
      rw [hcopies] at hmem
      exact absurd hmem List.not_mem_nil
    have hclean : ∀ copy ∈ copies, copy.modified = false := by
      intro copy hmem
      by_contra hne
      have hold := hmodified copy hmem (by simpa using hne)
      rw [hcopies] at hold
      exact List.not_mem_nil hold
    by_cases hnone : copies = []
    · rw [hnone, ← hcopies, Function.update_eq_self]
      exact h
    · have hothers := hfetch hcopies hnone
      rw [h.known_eq hothers] at hcoherent
      refine ⟨fun j hne => ?_, fun j hj k hkj => ?_, fun _ => ?_⟩
      · by_cases hji : j = i
        · rwa [hji, Function.update_self]
        · rw [Function.update_of_ne hji] at hne ⊢
          exact h.coherent j hne
      · obtain ⟨copy, hmem, htrue⟩ := hj
        by_cases hji : j = i
        · rw [hji, Function.update_self] at hmem
          exact absurd htrue (by simp [hclean copy hmem])
        · rw [Function.update_of_ne hji] at hmem
          exact absurd htrue (by simp [hothers j hji copy hmem])
      · exact (hcoherent.unmodified fun copy hcopy => hclean copy (List.mem_of_mem_head? hcopy)).1
  | cons first rest =>
    have hne : caches i ≠ [] := by
      rw [hcopies]
      exact List.cons_ne_nil _ _
    rw [known_of_ne_nil hne] at hcoherent
    -- where another cache has copies this one has no modified ones, so it stores nothing
    refine ⟨fun j hj => ?_, fun j hj k hkj => ?_, fun hclean => ?_⟩
    · by_cases hji : j = i
      · rwa [hji, Function.update_self]
      · rw [Function.update_of_ne hji] at hj ⊢
        rw [hstore (h.unmodified hji hj)]
        exact h.coherent j hj
    · obtain ⟨copy, hmem, htrue⟩ := hj
      by_cases hji : j = i
      · subst hji
        rw [Function.update_self] at hmem
        rw [Function.update_of_ne hkj]
        exact h.alone j ⟨copy, hmodified copy hmem htrue, htrue⟩ k hkj
      · rw [Function.update_of_ne hji] at hmem
        exact absurd (h.alone j ⟨copy, hmem, htrue⟩ i (Ne.symm hji)) hne
    · have hall := hclean i
      rw [Function.update_self] at hall
      exact (hcoherent.unmodified fun copy hcopy => hall copy (List.mem_of_mem_head? hcopy)).1

end Caches

end WriteBack

end Lissandra
