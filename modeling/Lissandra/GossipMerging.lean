import Lissandra.Gossiping
import Lissandra.LastWriter
import Lissandra.MemoryCriteria

/-! # Merging tables of memories

`update_memory` is written twice.  A memory node edits a list of entries of its own; the kernel
edits the memories that `g_memories` points to, takes the dead ones out of the criteria, and has
`malloc` give it an address for a new one.  What the list of the kernel points to is the same as
what the list of a node would be (`holds_updateMemories`), and of every id the entry that is left
is the last written one (`gossip_last_writer_wins`).
-/
namespace Lissandra

/-- `timestamp`. -/
def MemoryT.time (memory : MemoryT) : Int := memory.timestamp.toInt

/-- A newer version takes the place of an entry, and one of another id is appended. -/
abbrev mergeMemory : List MemoryT → MemoryT → List MemoryT :=
  refresh MemoryT.id MemoryT.time fun _ => true

/-! ## A memory node -/

/-- A node appends all but the memory without a number. -/
theorem updateMemories_eq_merge {table received : List MemoryT}
    (hids : ∀ memory ∈ received, memory.id ≠ -1) :
    updateMemories table received = received.foldl mergeMemory table := by
  have hone : ∀ (table : List MemoryT) (memory : MemoryT), memory.id ≠ -1 →
      updateMemory table memory = mergeMemory table memory := by
    intro table memory hid
    induction table with
    | nil => simp [updateMemory, mergeMemory, refresh, hid]
    | cons first rest ih =>
      unfold updateMemory mergeMemory at ih ⊢
      rw [refresh, refresh, ih]
      rfl
  unfold updateMemories
  induction received generalizing table with
  | nil => rfl
  | cons memory received ih =>
    rw [List.foldl_cons, List.foldl_cons, hone table memory (hids memory List.mem_cons_self)]
    exact ih fun other hother => hids other (List.mem_cons_of_mem _ hother)

/-! ## The kernel -/

section Kernel
variable {heap : MemoryHeap} {list : List MemoryPointer} {table : List MemoryT}
  {pointer address : MemoryPointer} {memory : MemoryT} {id : Int32}
  {incoming : List (MemoryT × MemoryPointer)}

/-- What the search finds is what the table has. -/
theorem lookup_of_findMemory {found : Option MemoryPointer} (h : list.map heap = table.map some)
    (hfound : findMemory heap id list = some found) :
    lookup MemoryT.id id table = found.bind heap := by
  induction list generalizing table with
  | nil =>
    obtain rfl := Option.some.inj hfound
    rw [List.map_nil, eq_comm, List.map_eq_nil_iff] at h
    rw [h]
    rfl
  | cons first rest ih =>
    cases table with
    | nil => cases h
    | cons entry entries =>
      rw [List.map_cons, List.map_cons, List.cons.injEq] at h
      obtain ⟨hfirst, hrest⟩ := h
      rw [findMemory, hfirst, Option.bind_eq_bind, Option.bind_some] at hfound
      split_ifs at hfound with hid
      · obtain rfl := Option.some.inj hfound
        rw [lookup_cons_of_eq hid]
        exact hfirst.symm
      · rw [lookup_cons_of_ne hid]
        exact ih hrest hfound

/-- A version is written to the memory that the search finds. -/
theorem map_update_of_findMemory (h : list.map heap = table.map some)
    (hnodup : (table.map MemoryT.id).Nodup)
    (hfound : findMemory heap memory.id list = some (some pointer)) :
    list.map (Function.update heap pointer (some memory))
      = (put MemoryT.id table memory).map some := by
  induction list generalizing table with
  | nil => cases hfound
  | cons first rest ih =>
    cases table with
    | nil => cases h
    | cons entry entries =>
      rw [List.map_cons, List.map_cons, List.cons.injEq] at h
      obtain ⟨hfirst, hrest⟩ := h
      obtain ⟨hentry, hentries⟩ := List.nodup_cons.mp hnodup
      rw [findMemory, hfirst, Option.bind_eq_bind, Option.bind_some] at hfound
      rw [put, List.map_cons]
      split_ifs at hfound ⊢ with hid
      · obtain rfl := Option.some.inj (Option.some.inj hfound)
        rw [Function.update_self, List.map_cons, ← hrest]
        refine congrArg _ (List.map_congr_left fun other hother => Function.update_of_ne ?_ _ _)
        -- what else points to this address would be a second entry of this id
        rintro rfl
        have hother : some entry ∈ entries.map some := by
          rw [← hrest, ← hfirst]
          exact List.mem_map_of_mem hother
        obtain ⟨same, hsame, heq⟩ := List.mem_map.mp hother
        obtain rfl := Option.some.inj heq
        exact hentry (List.mem_map_of_mem hsame)
      · have hne : first ≠ pointer := by
          rintro rfl
          obtain ⟨-, found, hheap, hfoundid⟩ := findMemory_some hfound
          obtain rfl := Option.some.inj (hfirst.symm.trans hheap)
          exact hid hfoundid
        rw [Function.update_of_ne hne, hfirst, List.map_cons, ih hrest hentries hfound]

namespace KernelMemories
variable {s s' : KernelMemories}

/-- What `g_memories` points to. -/
def Holds (s : KernelMemories) (table : List MemoryT) : Prop :=
  s.memories.map s.heap = table.map some

theorem Holds.allocated (h : s.Holds table) : ∀ pointer ∈ s.memories, (s.heap pointer).isSome := by
  intro pointer hmem
  have hheap : s.heap pointer ∈ table.map some := by
    rw [← h]
    exact List.mem_map_of_mem hmem
  obtain ⟨memory, -, heq⟩ := List.mem_map.mp hheap
  rw [← heq]
  rfl

theorem removeMemory_table (h : s.removeMemory id = some s') :
    s'.memories = s.memories ∧ s'.heap = s.heap := by
  obtain ⟨sc, -, h⟩ := Option.bind_eq_some_iff.mp h
  obtain ⟨shc, -, h⟩ := Option.bind_eq_some_iff.mp h
  obtain ⟨ec, -, h⟩ := Option.bind_eq_some_iff.mp h
  obtain rfl := Option.some.inj h
  exact ⟨rfl, rfl⟩

/-- **One memory.** -/
theorem holds_updateMemory (h : s.Holds table) (hnodup : (table.map MemoryT.id).Nodup)
    (hrun : s.updateMemory memory address = some s') : s'.Holds (mergeMemory table memory) := by
  -- a newer version of a memory that the table has
  have hwrite : ∀ {pointer existing},
      findMemory s.heap memory.id s.memories = some (some pointer) →
      s.heap pointer = some existing → existing.timestamp.toInt < memory.timestamp.toInt →
        (s.write pointer memory).Holds (mergeMemory table memory) := by
    intro pointer existing hfound hexisting hnewer
    have hlookup := lookup_of_findMemory h hfound
    rw [Option.bind_some, hexisting] at hlookup
    have hput : mergeMemory table memory = put MemoryT.id table memory := by
      apply refresh_eq_put rfl
      rw [hlookup]
      rintro other ⟨⟩
      exact hnewer
    rw [hput]
    exact map_update_of_findMemory h hnodup hfound
  cases updates_of_updateMemory hrun with
  | dead found there same newer removed =>
    obtain ⟨hmemories, hheap⟩ := removeMemory_table removed
    rw [Holds, hmemories, hheap]
    exact hwrite found there newer
  | alive found there same newer alive => exact hwrite found there newer
  | older found there older =>
    have hlookup := lookup_of_findMemory h found
    rw [Option.bind_some, there] at hlookup
    have hsame : mergeMemory table memory = table := refresh_of_le hlookup older
    rw [hsame]
    exact h
  | new unknown free =>
    have hlookup : lookup MemoryT.id memory.id table = none := lookup_of_findMemory h unknown
    have hnew : memory.id ∉ table.map MemoryT.id := lookup_eq_none_iff.mp hlookup
    have hput : mergeMemory table memory = table ++ [memory] := by
      rw [mergeMemory, refresh_eq_put rfl (by simp [hlookup]), put_of_not_mem hnew]
    rw [hput]
    show (s.memories ++ [address]).map (Function.update s.heap address (some memory)) = _
    rw [List.map_append, List.map_append, List.map_singleton, Function.update_self,
      List.map_singleton, ← h]
    refine congrArg (· ++ _) (List.map_congr_left fun other hother => ?_)
    refine Function.update_of_ne ?_ _ _
    rintro rfl
    have hthere := h.allocated other hother
    rw [free] at hthere
    cases hthere

/-- **A received list.** -/
theorem holds_updateMemories (h : s.Holds table) (hnodup : (table.map MemoryT.id).Nodup)
    (hrun : s.updateMemories incoming = some s') :
    s'.Holds ((incoming.map Prod.fst).foldl mergeMemory table) := by
  induction incoming generalizing s table with
  | nil =>
    obtain rfl := Option.some.inj hrun
    exact h
  | cons first rest ih =>
    obtain ⟨updated, hupdated, hrun⟩ := Option.bind_eq_some_iff.mp hrun
    exact ih (holds_updateMemory h hnodup hupdated) (nodup_refresh rfl hnodup) hrun

theorem Holds.unique {other : List MemoryT} (h : s.Holds table) (hother : s.Holds other) :
    table = other :=
  List.map_injective_iff.mpr (Option.some_injective _) (h.symm.trans hother)

/-! ### The kernel gets through a list -/

/-- The criteria have memories that are allocated, and `malloc` gives addresses that are not. -/
structure Ready (s : KernelMemories) (incoming : List (MemoryT × MemoryPointer)) : Prop where
  added : ∀ consistency, ∀ pointer ∈ s.added consistency, (s.heap pointer).isSome
  free : ∀ address ∈ incoming.map Prod.snd, s.heap address = none
  distinct : (incoming.map Prod.snd).Nodup

theorem findMemory_returns (id : Int32) (h : ∀ pointer ∈ list, (heap pointer).isSome) :
    ∃ found, findMemory heap id list = some found := by
  induction list with
  | nil => exact ⟨none, rfl⟩
  | cons first rest ih =>
    obtain ⟨memory, hmemory⟩ := Option.isSome_iff_exists.mp (h first List.mem_cons_self)
    rw [findMemory, hmemory, Option.bind_eq_bind, Option.bind_some]
    split_ifs
    · exact ⟨_, rfl⟩
    · exact ih fun pointer hmem => h pointer (List.mem_cons_of_mem _ hmem)

theorem removeMemoryFromConsistency_returns (id : Int32)
    (h : ∀ pointer ∈ list, (heap pointer).isSome) :
    ∃ rest, removeMemoryFromConsistency heap id list = some rest ∧ rest ⊆ list := by
  induction list with
  | nil => exact ⟨[], rfl, List.Subset.refl _⟩
  | cons first rest ih =>
    obtain ⟨memory, hmemory⟩ := Option.isSome_iff_exists.mp (h first List.mem_cons_self)
    rw [removeMemoryFromConsistency, hmemory, Option.bind_eq_bind, Option.bind_some]
    split_ifs
    · exact ⟨rest, rfl, List.subset_cons_self _ _⟩
    · obtain ⟨left, hleft, hsub⟩ := ih fun pointer hmem => h pointer (List.mem_cons_of_mem _ hmem)
      exact ⟨first :: left, by rw [hleft]; rfl, List.cons_subset_cons _ hsub⟩

theorem removeMemory_returns (id : Int32)
    (h : ∀ consistency, ∀ pointer ∈ s.added consistency, (s.heap pointer).isSome) :
    ∃ s', s.removeMemory id = some s' ∧ s'.heap = s.heap ∧
      ∀ consistency, s'.added consistency ⊆ s.added consistency := by
  obtain ⟨sc, hsc, hscsub⟩ := removeMemoryFromConsistency_returns id (h .strongConsistency)
  obtain ⟨shc, hshc, hshcsub⟩ := removeMemoryFromConsistency_returns id (h .strongHashConsistency)
  obtain ⟨ec, hec, hecsub⟩ := removeMemoryFromConsistency_returns id (h .eventualConsistency)
  refine ⟨{ s with memoriesAddedSc := sc, memoriesAddedShc := shc, memoriesAddedEc := ec }, ?_, rfl,
    ?_⟩
  · unfold removeMemory
    rw [show removeMemoryFromConsistency s.heap id s.memoriesAddedSc = some sc from hsc,
      show removeMemoryFromConsistency s.heap id s.memoriesAddedShc = some shc from hshc,
      show removeMemoryFromConsistency s.heap id s.memoriesAddedEc = some ec from hec]
    rfl
  · intro consistency
    cases consistency with
    | strongConsistency => exact hscsub
    | strongHashConsistency => exact hshcsub
    | eventualConsistency => exact hecsub

/-- One memory, with a list still to come. -/
theorem updateMemory_returns (h : s.Holds table)
    (hready : s.Ready ((memory, address) :: incoming)) :
    ∃ s', s.updateMemory memory address = some s' ∧ s'.Ready incoming := by
  obtain ⟨hadded, hfree, hdistinct⟩ := hready
  rw [List.map_cons, List.nodup_cons] at hdistinct
  obtain ⟨haddress, hdistinct⟩ := hdistinct
  have hothers : ∀ other ∈ incoming.map Prod.snd, s.heap other = none := fun other hother =>
    hfree other (List.mem_cons_of_mem _ hother)
  obtain ⟨found, hfound⟩ := findMemory_returns memory.id h.allocated
  unfold updateMemory
  rw [hfound, Option.bind_eq_bind, Option.bind_some]
  cases found with
  | some pointer =>
    obtain ⟨-, existing, hexisting, -⟩ := findMemory_some hfound
    -- writing to an allocated address leaves the others as they are
    have hwritten : ∀ other, s.heap other = none →
        Function.update s.heap pointer (some { memory with id := existing.id }) other = none := by
      intro other hother
      have hne : other ≠ pointer := by
        rintro rfl
        cases hother.symm.trans hexisting
      rw [Function.update_of_ne hne, hother]
    have hstill : ∀ other, (s.heap other).isSome →
        (Function.update s.heap pointer (some { memory with id := existing.id }) other).isSome := by
      intro other hother
      by_cases heq : other = pointer
      · rw [heq, Function.update_self]
        rfl
      · rw [Function.update_of_ne heq]
        exact hother
    dsimp only
    rw [hexisting, Option.bind_eq_bind, Option.bind_some]
    split_ifs
    · obtain ⟨s', hremoved, hheap, hsub⟩ := @removeMemory_returns
        (s.write pointer { memory with id := existing.id }) existing.id
        fun consistency other hmem =>
          hstill other (hadded consistency other (by cases consistency <;> exact hmem))
      refine ⟨s', hremoved, fun consistency other hmem => ?_, fun other hother => ?_, hdistinct⟩
      · rw [hheap]
        have hbefore := hsub consistency hmem
        exact hstill other (hadded consistency other (by cases consistency <;> exact hbefore))
      · rw [hheap]
        exact hwritten other (hothers other hother)
    · refine ⟨_, rfl, fun consistency other hmem => ?_, fun other hother => ?_, hdistinct⟩
      · exact hstill other (hadded consistency other (by cases consistency <;> exact hmem))
      · exact hwritten other (hothers other hother)
    · exact ⟨s, rfl, hadded, hothers, hdistinct⟩
  | none =>
    have hnone : s.heap address = none := hfree address List.mem_cons_self
    dsimp only
    rw [if_neg (by simp [hnone])]
    refine ⟨_, rfl, fun consistency other hmem => ?_, fun other hother => ?_, hdistinct⟩
    · have hbefore := hadded consistency other (by cases consistency <;> exact hmem)
      show (Function.update s.heap address (some memory) other).isSome
      by_cases heq : other = address
      · rw [heq, Function.update_self]
        rfl
      · rw [Function.update_of_ne heq]
        exact hbefore
    · show Function.update s.heap address (some memory) other = none
      have hne : other ≠ address := fun heq => haddress (heq ▸ hother)
      rw [Function.update_of_ne hne]
      exact hothers other hother

theorem updateMemories_returns (h : s.Holds table) (hnodup : (table.map MemoryT.id).Nodup)
    (hready : s.Ready incoming) : ∃ s', s.updateMemories incoming = some s' := by
  induction incoming generalizing s table with
  | nil => exact ⟨s, rfl⟩
  | cons first rest ih =>
    obtain ⟨memory, address⟩ := first
    obtain ⟨updated, hupdated, hrest⟩ := updateMemory_returns h hready
    obtain ⟨s', hrun⟩ := ih (holds_updateMemory h hnodup hupdated) (nodup_refresh rfl hnodup) hrest
    refine ⟨s', ?_⟩
    rw [updateMemories, hupdated]
    exact hrun

end KernelMemories
end Kernel

/-! ## Both -/

/-- What a memory node or the kernel makes of its table and a received list. -/
inductive Merged (table received : List MemoryT) : List MemoryT → Prop
  | node : Merged table received (updateMemories table received)
  | kernel {s s' : KernelMemories} {incoming : List (MemoryT × MemoryPointer)}
      {result : List MemoryT} (htable : s.Holds table)
      (hreceived : incoming.map Prod.fst = received)
      (hrun : s.updateMemories incoming = some s') (hresult : s'.Holds result) :
      Merged table received result

/-- Of each id the entry that is left is the one with the greatest timestamp, and the first of
those, so time does not go back, what came in before does nothing when it comes in again, and the
order matters only where two entries of an id have one timestamp. -/
structure LastWriterWins (table received result : List MemoryT) : Prop where
  nodup : (result.map MemoryT.id).Nodup
  ids : ∀ id, id ∈ result.map MemoryT.id ↔ id ∈ table.map MemoryT.id ∨ id ∈ received.map MemoryT.id
  latest : ∀ id, lookup MemoryT.id id result
    = latest MemoryT.id MemoryT.time id (table ++ received)
  monotone : ∀ memory ∈ table, ∃ version ∈ result, version.id = memory.id ∧
    memory.time ≤ version.time
  again : ∀ again ⊆ received, ∀ after, Merged result again after → after = result
  order : ∀ reordered, received.Perm reordered →
    DistinctTimes MemoryT.id MemoryT.time (table ++ received) →
      ∀ other, Merged table reordered other → other.Perm result

section Merging
variable {table received result : List MemoryT}

theorem merged_eq (hnodup : (table.map MemoryT.id).Nodup)
    (hids : ∀ memory ∈ received, memory.id ≠ -1) (h : Merged table received result) :
    result = received.foldl mergeMemory table := by
  cases h with
  | node => exact updateMemories_eq_merge hids
  | kernel htable hreceived hrun hresult =>
    subst hreceived
    exact hresult.unique (KernelMemories.holds_updateMemories htable hnodup hrun)

theorem lastWriterWins_of_merged (hnodup : (table.map MemoryT.id).Nodup)
    (hids : ∀ memory ∈ received, memory.id ≠ -1) (h : Merged table received result) :
    LastWriterWins table received result := by
  obtain rfl := merged_eq hnodup hids h
  have hkeep : ∀ received : List MemoryT, ∀ memory ∈ received, (fun _ : MemoryT => true) memory :=
    fun _ _ _ => rfl
  have hresult : ((received.foldl mergeMemory table).map MemoryT.id).Nodup :=
    nodup_foldl_refresh (hkeep received) hnodup
  have hlatest : ∀ id, lookup MemoryT.id id (received.foldl mergeMemory table)
      = latest MemoryT.id MemoryT.time id (table ++ received) :=
    lookup_foldl_refresh_eq_latest (hkeep received) hnodup
  -- of whatever was there or came in, the table has a version that is as new
  have hversion : ∀ memory ∈ table ++ received, ∃ version,
      lookup MemoryT.id memory.id (received.foldl mergeMemory table) = some version ∧
        memory.time ≤ version.time := by
    intro memory hmem
    obtain ⟨version, hnewest⟩ : ∃ version,
        latest MemoryT.id MemoryT.time memory.id (table ++ received) = some version :=
      exists_latest hmem
    obtain ⟨-, -, hle⟩ := latest_spec hnewest
    exact ⟨version, (hlatest memory.id).trans hnewest, hle memory hmem rfl⟩
  refine ⟨hresult, fun id => mem_keys_foldl_refresh (hkeep received), hlatest, ?_, ?_, ?_⟩
  · intro memory hmem
    obtain ⟨version, hlookup, hle⟩ := hversion memory (List.mem_append_left _ hmem)
    exact ⟨version, mem_of_lookup hlookup, key_of_lookup hlookup, hle⟩
  · intro again hsub after hafter
    rw [merged_eq hresult (fun memory hmem => hids memory (hsub hmem)) hafter]
    apply foldl_refresh_of_le
    exact fun memory hmem => hversion memory (List.mem_append_right _ (hsub hmem))
  · intro reordered hperm hdistinct other hother
    have hids' : ∀ memory ∈ reordered, memory.id ≠ -1 := fun memory hmem =>
      hids memory (hperm.mem_iff.mpr hmem)
    rw [merged_eq hnodup hids' hother]
    refine perm_of_lookup_eq (nodup_foldl_refresh (hkeep reordered) hnodup) hresult fun id => ?_
    rw [hlatest, lookup_foldl_refresh_eq_latest (hkeep reordered) hnodup]
    exact (latest_perm (hperm.append_left table) hdistinct).symm

/-- **The last writer wins**, at a memory node and at the kernel, which gets through any list where
its criteria have allocated memories and `malloc` gives addresses that are free. -/
theorem gossip_last_writer_wins (hnodup : (table.map MemoryT.id).Nodup)
    (hids : ∀ memory ∈ received, memory.id ≠ -1) :
    (∀ result, Merged table received result → LastWriterWins table received result) ∧
      ∀ (s : KernelMemories) (incoming : List (MemoryT × MemoryPointer)), s.Holds table →
        incoming.map Prod.fst = received → s.Ready incoming →
          ∃ s' result, s.updateMemories incoming = some s' ∧ s'.Holds result := by
  refine ⟨fun result => lastWriterWins_of_merged hnodup hids, ?_⟩
  intro s incoming htable _ hready
  obtain ⟨s', hrun⟩ := KernelMemories.updateMemories_returns htable hnodup hready
  exact ⟨s', _, hrun, KernelMemories.holds_updateMemories htable hnodup hrun⟩

/-- Two versions of a memory, one of another one, and an older version. -/
def fourVersions : List (MemoryT × MemoryPointer) :=
  [(⟨1, .ofBytes [49], 8001, true, 5⟩, 1), (⟨1, .ofBytes [49], 8001, false, 7⟩, 2),
    (⟨2, .ofBytes [50], 8002, true, 6⟩, 3), (⟨1, .ofBytes [49], 8001, true, 4⟩, 4)]

/-- A node and the kernel take them over. -/
theorem gossip_last_writer_wins_four :
    LastWriterWins [⟨-1, .ofBytes [49], 8001, true, 0⟩] (fourVersions.map Prod.fst)
        [⟨-1, .ofBytes [49], 8001, true, 0⟩, ⟨1, .ofBytes [49], 8001, false, 7⟩,
          ⟨2, .ofBytes [50], 8002, true, 6⟩] ∧
      ∃ s' result, firstKernel.updateMemories fourVersions = some s' ∧ s'.Holds result := by
  obtain ⟨hmerged, hkernel⟩ := @gossip_last_writer_wins [⟨-1, .ofBytes [49], 8001, true, 0⟩]
    (fourVersions.map Prod.fst) (by decide) (by decide)
  refine ⟨hmerged _ .node, hkernel firstKernel fourVersions rfl rfl ⟨?_, by decide, by decide⟩⟩
  rintro consistency pointer hmem
  cases consistency <;> cases hmem

end Merging

end Lissandra
