import Lissandra.CacheView

/-! # A memory node in front of stored records

The filesystem as a memory node sees it: for every table all records that were stored, of
which a SELECT gets one of greatest timestamp.  With `last` the record of each key that was
written last, `CoherentView` asks of every key of every table that the copies in memory and
the stored records are a coherent write-back cache.  The operations of a view keep it.
-/
namespace Lissandra

/-- The records that were stored for each table. -/
abbrev Stored := Bytes → List Record

/-- Records that are stored one after the other. -/
def Stored.store (stored : Stored) (records : List (Bytes × Record)) : Stored :=
  fun tableName => stored tableName ++ (records.filter (·.1 = tableName)).map Prod.snd

/-- The record that was written last for each key of each table. -/
abbrev Last := Bytes → UInt16 → Option Record

/-- A record is written. -/
def Last.set (last : Last) (tableName : Bytes) (record : Record) : Last :=
  fun other key => if other = tableName ∧ key = record.key then some record else last other key

/-- Every key of every table is a coherent write-back cache. -/
def CoherentView (stored : Stored) (last : Last) (view : View) : Prop :=
  ∀ tableName key,
    Coherent time (ofKey key (stored tableName)) (last tableName key) (view.of tableName key)

section Coherence
variable {stored : Stored} {last : Last} {view view' : View} {tableName other : Bytes}
  {key : UInt16} {record : Record} {records : List (Bytes × Record)} {copy : Copy Record}

theorem mem_store : record ∈ stored.store records tableName ↔
    record ∈ stored tableName ∨ (tableName, record) ∈ records := by
  rw [Stored.store, List.mem_append, List.mem_map]
  refine or_congr Iff.rfl ⟨?_, fun h =>
    ⟨(tableName, record), List.mem_filter.mpr ⟨h, by simp⟩, rfl⟩⟩
  rintro ⟨⟨name, other⟩, hfilter, rfl⟩
  obtain ⟨hmem, hname⟩ := List.mem_filter.mp hfilter
  obtain rfl : name = tableName := of_decide_eq_true hname
  exact hmem

theorem View.mem_of : copy ∈ view.of tableName key ↔ copy ∈ view tableName ∧
    copy.record.key = key := by
  rw [View.of, List.mem_filter, decide_eq_true_eq]

theorem View.Writes.of_ne_nil (h : view.Writes tableName record view') :
    view.of tableName record.key ≠ [] := by
  obtain ⟨before, copy, after, hview, hkey, -, -⟩ := h
  exact List.ne_nil_of_mem (View.mem_of.mpr
    ⟨hview ▸ List.mem_append_right _ List.mem_cons_self, hkey⟩)

theorem Last.set_self (last : Last) (tableName : Bytes) (record : Record) :
    last.set tableName record tableName record.key = some record := if_pos ⟨rfl, rfl⟩

theorem Last.set_of_ne {otherKey : UInt16}
    (h : ¬(other = tableName ∧ otherKey = record.key)) :
    last.set tableName record other otherKey = last other otherKey := if_neg h

/-- A record that is written later leaves what was behind the last one behind. -/
theorem Behind.set {found : Record} (h : Behind time (last other found.key) found)
    (hlater : ∀ old, last tableName record.key = some old → time old < time record) :
    Behind time (last.set tableName record other found.key) found := by
  by_cases hkey : other = tableName ∧ found.key = record.key
  · obtain ⟨rfl, hkey⟩ := hkey
    obtain ⟨old, hold, hbehind⟩ := h
    rw [hkey] at hold
    refine ⟨record, if_pos ⟨rfl, hkey⟩, Or.inl ?_⟩
    rcases hbehind with hlt | rfl
    · exact hlt.trans (hlater old hold)
    · exact hlater _ hold
  · rwa [Last.set_of_ne hkey]

/-- Modified copies are what was written last. -/
theorem CoherentView.of_modified (h : CoherentView stored last view)
    (hmem : ⟨record, true⟩ ∈ view tableName) : last tableName record.key = some record :=
  ((h tableName record.key).of_modified (View.mem_of.mpr ⟨hmem, rfl⟩) rfl).2

theorem CoherentView.evicts (h : CoherentView stored last view)
    (hevicts : view' = view ∨ view.Evicts view') : CoherentView stored last view' := by
  rcases hevicts with rfl | hevicts
  · exact h
  · intro tableName key
    rcases hevicts.of tableName key with heq | ⟨before, copy, after, hsplit, hclean, heq⟩
    · exact heq ▸ h tableName key
    · have hold := h tableName key
      rw [hsplit] at hold
      exact heq ▸ hold.evict hclean

/-- An eviction brings no copies. -/
theorem View.mem_of_evicts (hevicts : view' = view ∨ view.Evicts view')
    (hmem : copy ∈ view' tableName) : copy ∈ view tableName := by
  rcases hevicts with rfl | ⟨name, before, found, after, hview, -, rfl⟩
  · exact hmem
  · rw [Function.update_apply] at hmem
    split at hmem
    · rename_i heq
      rw [heq, hview]
      rw [List.mem_append] at hmem ⊢
      exact hmem.imp_right (List.mem_cons_of_mem _)
    · exact hmem

theorem View.of_evicts (hevicts : view' = view ∨ view.Evicts view')
    (hmem : copy ∈ view'.of tableName key) : copy ∈ view.of tableName key := by
  obtain ⟨hmem, hkey⟩ := View.mem_of.mp hmem
  exact View.mem_of.mpr ⟨View.mem_of_evicts hevicts hmem, hkey⟩

/-- Where there is no copy an eviction finds none. -/
theorem View.of_eq_nil (hevicts : view' = view ∨ view.Evicts view')
    (h : view.of tableName key = []) : view'.of tableName key = [] := by
  apply List.eq_nil_iff_forall_not_mem.mpr
  intro copy hmem
  have hold := View.of_evicts hevicts hmem
  rw [h] at hold
  exact List.not_mem_nil hold

/-- A copy that joins is the only one that comes. -/
theorem View.mem_of_add {new : Copy Record} (hmem : copy ∈ view.add tableName new other) :
    copy ∈ view other ∨ other = tableName ∧ copy = new := by
  rw [View.add, Function.update_apply] at hmem
  split at hmem
  · rename_i heq
    rw [heq]
    exact (List.mem_append.mp hmem).imp_right fun hnew => ⟨rfl, List.mem_singleton.mp hnew⟩
  · exact Or.inl hmem

theorem View.of_add_cases {new : Copy Record}
    (hmem : copy ∈ (view.add tableName new).of other key) :
    copy ∈ view.of other key ∨ (other = tableName ∧ key = new.record.key) ∧ copy = new := by
  obtain ⟨hmem, hkey⟩ := View.mem_of.mp hmem
  rcases View.mem_of_add hmem with hold | ⟨hother, rfl⟩
  · exact Or.inl (View.mem_of.mpr ⟨hold, hkey⟩)
  · exact Or.inr ⟨⟨hother, hkey.symm⟩, rfl⟩

/-- A new record on a page of its own. -/
theorem CoherentView.write_new (h : CoherentView stored last view)
    (hmiss : view.of tableName record.key = [])
    (hlater : ∀ other ∈ ofKey record.key (stored tableName), time other < time record) :
    CoherentView stored (last.set tableName record) (view.add tableName ⟨record, true⟩) := by
  intro other key
  rw [View.of_add, Last.set]
  by_cases hkey : other = tableName ∧ key = record.key
  · obtain ⟨rfl, rfl⟩ := hkey
    rw [if_pos ⟨rfl, rfl⟩, if_pos ⟨rfl, rfl⟩, hmiss]
    have hold := h other record.key
    rw [hmiss] at hold
    exact hold.write hlater
  · rw [if_neg hkey, if_neg hkey]
    exact h other key

/-- A new record over the first copy. -/
theorem CoherentView.write (h : CoherentView stored last view)
    (hwrites : view.Writes tableName record view')
    (hlater : ∀ other ∈ ofKey record.key (stored tableName), time other < time record) :
    CoherentView stored (last.set tableName record) view' := by
  intro other key
  rw [hwrites.of, Last.set]
  by_cases hkey : other = tableName ∧ key = record.key
  · obtain ⟨rfl, rfl⟩ := hkey
    rw [if_pos ⟨rfl, rfl⟩, if_pos ⟨rfl, rfl⟩]
    exact (h other record.key).write hlater
  · rw [if_neg hkey, if_neg hkey]
    exact h other key

/-- What the store answers comes to memory. -/
theorem CoherentView.fill (h : CoherentView stored last view)
    (hlast : last tableName record.key = some record) :
    CoherentView stored last (view.add tableName ⟨record, false⟩) := by
  intro other key
  rw [View.of_add]
  by_cases hkey : other = tableName ∧ key = record.key
  · obtain ⟨rfl, rfl⟩ := hkey
    have hold := h other record.key
    rw [hlast] at hold ⊢
    rw [if_pos ⟨rfl, rfl⟩]
    exact hold.fill
  · rw [if_neg hkey]
    exact h other key

/-- Storing appends to the records of a key. -/
theorem ofKey_store (stored : Stored) (records : List (Bytes × Record)) (tableName : Bytes)
    (key : UInt16) :
    ∃ late, ofKey key (stored.store records tableName) = ofKey key (stored tableName) ++ late ∧
      ∀ record ∈ late, (tableName, record) ∈ records ∧ record.key = key := by
  refine ⟨ofKey key ((records.filter fun entry => entry.1 = tableName).map Prod.snd),
    ofKey_append _ _ _, fun record hkeyed => ?_⟩
  obtain ⟨hstored, hkey⟩ := mem_ofKey.mp hkeyed
  obtain ⟨⟨name, other⟩, hfilter, rfl⟩ := List.mem_map.mp hstored
  obtain ⟨hmem, hname⟩ := List.mem_filter.mp hfilter
  obtain rfl : name = tableName := of_decide_eq_true hname
  exact ⟨hmem, hkey⟩

/-- Records that were written, and perhaps written over since, reach the store. -/
theorem CoherentView.store (h : CoherentView stored last view)
    (hbehind : ∀ tableName record, (tableName, record) ∈ records →
      Behind time (last tableName record.key) record) :
    CoherentView (stored.store records) last view := by
  intro tableName key
  obtain ⟨late, hsplit, hlate⟩ := ofKey_store stored records tableName key
  rw [hsplit]
  refine (h tableName key).append_store fun record hmem => ?_
  obtain ⟨hrecord, rfl⟩ := hlate record hmem
  exact hbehind tableName record hrecord

/-- All copies go, once the modified ones are stored. -/
theorem CoherentView.wipe (h : CoherentView stored last view)
    (hstored : ∀ tableName record, ⟨record, true⟩ ∈ view tableName → record ∈ stored tableName) :
    CoherentView stored last View.empty := by
  intro tableName key
  rw [View.of_empty]
  refine (h tableName key).wipe fun copy hmem hmodified => ?_
  obtain ⟨hmem, hkey⟩ := View.mem_of.mp hmem
  obtain ⟨record, modified⟩ := copy
  obtain rfl : modified = true := hmodified
  exact mem_ofKey.mpr ⟨hstored tableName record hmem, hkey⟩

/-- At the start there are only stored records, and the latest one was written last. -/
theorem coherentView_start (stored : Stored) :
    CoherentView stored (fun tableName key => newest (ofKey key (stored tableName)))
      View.empty := by
  intro tableName key
  rw [View.of_empty]
  refine ⟨fun _ hmem => absurd hmem (by simp), fun _ hmem => absurd hmem (by simp),
    fun _ => ⟨rfl, fun _ hmem => absurd hmem List.not_mem_nil⟩, ?_⟩
  rintro ⟨_, hmem, -⟩
  exact absurd hmem (by simp)

end Coherence

end Lissandra
