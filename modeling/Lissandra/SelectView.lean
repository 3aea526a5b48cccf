import Lissandra.DumpCompaction

/-! # The lookups of SELECT

What the four lookups of `search_key` find, in terms of the views.  The partition of a key
and the memtable answer with their first newest record; a temporary archive answers with
what a search of its segments finds (`archiveAnswer`), which need not be a newest record.
The answers are combined with `later`: the partition wins every tie, the memtable a tie
with a temporary archive, an earlier archive a tie with a later one
(`searchKeyAcross_eq`).
-/
namespace Lissandra

/-! ## Answers -/

/-- The record that a search finds in an archive written from these records. -/
def archiveAnswer (blockSize : Nat) (key : UInt16) (records : List Record) : Option Record :=
  searchSegments key (layout convertToTkv blockSize records)

/-- The record that a search of several archives finds. -/
def tmpsAnswer (blockSize : Nat) (key : UInt16) (tmps : List (List Record)) : Option Record :=
  tmps.foldl (fun best tmp => later time best (archiveAnswer blockSize key tmp)) none

/-- The last block that overwrites the held text, if there is one, leaves the first newest
record of the key as the last word. -/
def SearchFirst (key : UInt16) (ss : List (Segment convertToTkv)) : Prop :=
  ∀ before segment after, ss = before ++ segment :: after → Stray key segment →
    (∀ s ∈ after, ¬ Stray key s) →
    newest (lastWord key before segment after) = newest (ofKey key (ss.flatMap Segment.items))

/-- A result that is not mistaken for no result. -/
def Timed (result : Option Record) : Prop := ∀ record ∈ result, 0 ≤ time record

section Answers
variable {a b : Option Record} {tkvSize blockSize : Nat} {records : List Record} {key : UInt16}

theorem Timed.later (ha : Timed a) (hb : Timed b) : Timed (later time a b) := by
  rw [Lissandra.later]
  split
  · exact hb
  · exact ha

theorem foundOf_lt_iff (ha : Timed a) (hb : Timed b) :
    (foundOf a).timestamp < (foundOf b).timestamp ↔ beats time b a = true := by
  have hminus : (-1 : Int64).toInt = -1 := by decide
  rw [Int64.lt_iff_toInt_lt]
  cases b with
  | none =>
    cases a with
    | none => simp [foundOf]
    | some a =>
      have hnonneg : 0 ≤ time a := ha a rfl
      have hge : ¬ time a < -1 := by omega
      simpa [foundOf, Found.missing, hminus, Record.found, time] using hge
  | some b =>
    cases a with
    | none =>
      have hnonneg : 0 ≤ time b := hb b rfl
      have hlt : -1 < time b := by omega
      simpa [foundOf, Found.missing, hminus, Record.found, time] using hlt
    | some a => rw [beats_some_some]; rfl

theorem foundOf_later (ha : Timed a) (hb : Timed b) :
    (if (foundOf a).timestamp < (foundOf b).timestamp then foundOf b else foundOf a) =
      foundOf (later time a b) := by
  rw [later]
  by_cases h : beats time b a = true
  · rw [if_pos h, if_pos ((foundOf_lt_iff ha hb).mpr h)]
  · rw [if_neg h, if_neg fun hlt => h ((foundOf_lt_iff ha hb).mp hlt)]

theorem mostCurrentKey_foundOf {tmp partition memory : Option Record} (htmp : Timed tmp)
    (hpartition : Timed partition) (hmemory : Timed memory) :
    mostCurrentKey Found.missing (foundOf tmp) (foundOf partition) (foundOf memory) =
      foundOf (later time (later time partition memory) tmp) := by
  have hnone : Timed none := fun _ h => absurd h (by simp)
  have hcombine : keyWithGreaterTimestamp (keyWithGreaterTimestamp
      (keyWithGreaterTimestamp (foundOf tmp) Found.missing) (foundOf memory)) (foundOf partition) =
      foundOf (later time (later time partition memory) tmp) := by
    have hpair : ∀ {x y : Option Record}, Timed x → Timed y →
        keyWithGreaterTimestamp (foundOf x) (foundOf y) = foundOf (later time y x) :=
      fun hx hy => foundOf_later hy hx
    have hmissing : Found.missing = foundOf none := rfl
    rw [hmissing, hpair htmp hnone, later_none_left, hpair htmp hmemory,
      hpair (hmemory.later htmp) hpartition, later_assoc]
  rw [mostCurrentKey]
  simp only [hcombine]
  have htimed := (hpartition.later hmemory).later htmp
  cases hresult : later time (later time partition memory) tmp with
  | none => rfl
  | some record =>
    have hnonneg : 0 ≤ time record := htimed record hresult
    have hne : ¬ (foundOf (some record)).timestamp = -1 := by
      intro heq
      have htime : time record = (-1 : Int64).toInt := congrArg Int64.toInt heq
      rw [htime] at hnonneg
      exact absurd hnonneg (by decide)
    rw [if_neg hne]

theorem latest_mem {record : Record} (h : latest Record.key time key records = some record) :
    record ∈ ofKey key records := List.argmax_mem h

theorem timed_latest (h : ∀ record ∈ records, Storable tkvSize record) (key : UInt16) :
    Timed (latest Record.key time key records) := fun record hrecord =>
  (h record (List.mem_of_mem_filter (latest_mem hrecord))).timestamp_nonneg

theorem archiveAnswer_mem {blockSize : Nat} {record : Record}
    (h : archiveAnswer blockSize key records = some record) : record ∈ ofKey key records := by
  have hitems : (layout convertToTkv blockSize records).flatMap Segment.items = records :=
    items_layout blockSize records
  exact hitems ▸ searchSegments_mem h

theorem timed_archiveAnswer (blockSize : Nat) (h : ∀ record ∈ records, Storable tkvSize record)
    (key : UInt16) : Timed (archiveAnswer blockSize key records) := fun record hrecord =>
  (h record (List.mem_of_mem_filter (archiveAnswer_mem hrecord))).timestamp_nonneg

/-- The timed answer of several archives. -/
theorem timed_tmpsAnswer (blockSize : Nat) {tmps : List (List Record)}
    (h : ∀ tmp ∈ tmps, ∀ record ∈ tmp, Storable tkvSize record) (key : UInt16) :
    Timed (tmpsAnswer blockSize key tmps) := by
  have hfold : ∀ best, Timed best →
      Timed (tmps.foldl (fun best tmp => later time best (archiveAnswer blockSize key tmp))
        best) := by
    induction tmps with
    | nil => exact fun _ hbest => hbest
    | cons tmp tmps ih =>
      intro best hbest
      exact ih (fun t ht => h t (List.mem_cons_of_mem _ ht)) _
        (hbest.later (timed_archiveAnswer blockSize (h tmp List.mem_cons_self) key))
  exact hfold none fun _ hnone => absurd hnone (by simp)

theorem archiveAnswer_of_searchFirst (h : SearchFirst key (layout convertToTkv blockSize records)) :
    archiveAnswer blockSize key records = latest Record.key time key records := by
  have hitems : (layout convertToTkv blockSize records).flatMap Segment.items = records :=
    items_layout blockSize records
  by_cases hany : ∃ segment ∈ layout convertToTkv blockSize records, Stray key segment
  · obtain ⟨before, segment, after, hsplit, hstray, hafter⟩ := exists_last_of_exists hany
    rw [archiveAnswer, hsplit, searchSegments_of_stray hstray hafter,
      h before segment after hsplit hstray hafter, hitems]
    rfl
  · have hnone : ∀ s ∈ layout convertToTkv blockSize records, ¬ Stray key s :=
      fun s hs hstray => hany ⟨s, hs, hstray⟩
    rw [archiveAnswer, searchSegments_of_not_stray hnone, hitems]
    rfl

/-- The other direction, so the condition is no stronger than it has to be. -/
theorem searchFirst_of_archiveAnswer
    (h : archiveAnswer blockSize key records = latest Record.key time key records) :
    SearchFirst key (layout convertToTkv blockSize records) := by
  intro before segment after hsplit hstray hafter
  rw [items_layout, ← searchSegments_of_stray hstray hafter, ← hsplit]
  exact h

/-- Nothing can be overwritten wrongly in an archive with one record for each key. -/
theorem searchFirst_of_unique {blockSize : Nat} (h : UniqueKeys Record.key records) :
    SearchFirst key (layout convertToTkv blockSize records) := by
  intro before segment after hsplit hstray _
  obtain ⟨record, hrecord, hnewest, -⟩ := exists_argmax time (lastWord_ne_nil before after hstray)
  have hitems : (before ++ segment :: after).flatMap Segment.items = records :=
    hsplit ▸ items_layout blockSize records
  have hmem : record ∈ entriesOf Record.key key records := by
    have hsub := lastWord_subset hrecord
    rwa [hitems] at hsub
  have hlatest : newest (ofKey key records) = (entriesOf Record.key key records).argmax time := rfl
  rw [h.entriesOf_eq, Option.mem_toList] at hmem
  rw [newest, firstMaximum, hnewest, items_layout, hlatest, h.entriesOf_eq, hmem]
  rfl

end Answers

/-! ## The lookups -/

section Lookups
variable {tkvSize : Nat} {storage : Storage} {config : FsConfig} {fs : Filesystem} {name : Bytes}
  {view : TableView}

theorem searchKeyInFsArchive_intact {blocks : List Nat} (h : Intact tkvSize storage blocks)
    (key : UInt16) :
    searchKeyInFsArchive tkvSize storage.block blocks key =
      some (foundOf (archiveAnswer storage.blockSize key (decode tkvSize storage blocks))) := by
  obtain ⟨-, hblocks, hrecords⟩ := h.decode_eq
  have hgroups : blocks.map storage.block =
      [decode tkvSize storage blocks].flatMap (layoutBytes storage.blockSize) := by
    rw [hblocks]
    simp
  rw [searchKeyInFsArchive_layout hgroups (by simp) (by simpa using hrecords), archiveAnswer]
  simp

/-- Every record of a view is storable. -/
theorem Valid.storable (h : Valid config fs) (hview : fs.view config name = some view) :
    (∀ partition ∈ view.partitions, ∀ record ∈ partition, Storable config.tkvSize record) ∧
    (∀ tmp ∈ view.tmps, ∀ record ∈ tmp, Storable config.tkvSize record) ∧
    ∀ mem ∈ view.mem, ∀ record ∈ mem, Storable config.tkvSize record := by
  obtain ⟨table, hlookup, rfl⟩ := Option.map_eq_some_iff.mp hview
  have harchives : ∀ archive ∈ table.partitions ++ existingTmps table.tmps,
      ∀ record ∈ decode config.tkvSize fs.storage archive.blocks, Storable config.tkvSize record :=
    fun archive hmem =>
      (h.holds.intact _ (owned_subset hlookup (List.mem_map_of_mem hmem))).decode_eq.2.2
  refine ⟨fun partition hmem => ?_, fun tmp hmem => ?_, fun mem hmem => ?_⟩
  · obtain ⟨archive, harchive, rfl⟩ := List.mem_map.mp hmem
    exact harchives archive (List.mem_append_left _ harchive)
  · obtain ⟨archive, harchive, rfl⟩ := List.mem_map.mp hmem
    exact harchives archive (List.mem_append_right _ harchive)
  · obtain ⟨memTable, hfind, rfl⟩ := Option.map_eq_some_iff.mp hmem
    exact (h.texts memTable (List.mem_of_find?_eq_some hfind)).storable

theorem searchInTmpc_eq (h : Valid config fs) (hview : fs.view config name = some view)
    (key : UInt16) : searchInTmpc config fs name key = some Found.missing := by
  obtain ⟨table, hlookup, rfl⟩ := Option.map_eq_some_iff.mp hview
  simp only [searchInTmpc, hlookup, Option.bind_eq_bind, Option.bind_some,
    (h.tidy _ _ hlookup).noTmpc]

theorem searchInAllTmps_eq (h : Valid config fs) (hview : fs.view config name = some view)
    (key : UInt16) :
    searchInAllTmps config fs name key =
      some (foundOf (tmpsAnswer fs.storage.blockSize key view.tmps)) := by
  have hstorable := (h.storable hview).2.1
  obtain ⟨table, hlookup, rfl⟩ := Option.map_eq_some_iff.mp hview
  have hintact : ∀ archive ∈ existingTmps table.tmps,
      Intact config.tkvSize fs.storage archive.blocks := fun archive hmem =>
    h.holds.intact _ (owned_subset hlookup (List.mem_map_of_mem (List.mem_append_right _ hmem)))
  rw [searchInAllTmps, hlookup, tmpsAnswer]
  simp only [Option.bind_eq_bind, Option.bind_some]
  -- The loop keeps the answer of the archives it has seen.
  have hloop : ∀ (archives : List Archive) (best : Option Record), Timed best →
      (∀ archive ∈ archives, archive ∈ existingTmps table.tmps) →
      archives.foldlM (fun keyFoundInTmp tmp =>
        (searchKeyInFsArchive config.tkvSize fs.storage.block tmp.blocks key).bind fun keyFound =>
          some (if keyFoundInTmp.timestamp < keyFound.timestamp then keyFound else keyFoundInTmp))
        (foundOf best) =
      some (foundOf ((archives.map fun archive =>
        decode config.tkvSize fs.storage archive.blocks).foldl
          (fun best tmp => later time best (archiveAnswer fs.storage.blockSize key tmp))
          best)) := by
    intro archives
    induction archives with
    | nil => exact fun _ _ _ => rfl
    | cons archive archives ih =>
      intro best hbest hmem
      have harchive := hmem archive List.mem_cons_self
      have htimed := timed_archiveAnswer fs.storage.blockSize
        (hstorable _ (List.mem_map_of_mem harchive)) key
      rw [List.foldlM_cons, searchKeyInFsArchive_intact (hintact archive harchive)]
      simp only [Option.bind_eq_bind, Option.bind_some, foundOf_later hbest htimed]
      exact ih _ (hbest.later htimed) fun a ha => hmem a (List.mem_cons_of_mem _ ha)
  exact hloop (existingTmps table.tmps) none (fun _ hnone => absurd hnone (by simp)) fun _ ha => ha

theorem searchInPartition_eq (h : Valid config fs) (hview : fs.view config name = some view)
    (key : UInt16) :
    searchInPartition config fs name key =
      some (foundOf (latest Record.key time key (view.partitionOf key))) := by
  have hrouted := h.routed name view hview
  have hpartition := TableView.getElem?_route (h.partitions_ne name view hview) key
  obtain ⟨table, hlookup, rfl⟩ := Option.map_eq_some_iff.mp hview
  obtain ⟨hunique, -⟩ := hrouted _ _ hpartition
  have hlength : (table.decoded config.tkvSize fs.storage
      (memRecords fs.memTable name)).partitions.length = table.partitions.length := by
    simp [Table.decoded]
  rw [hlength] at hpartition
  obtain ⟨archive, harchive, hdecode⟩ : ∃ archive : Archive,
      table.partitions[TableView.route table.partitions.length key]? = some archive ∧
      decode config.tkvSize fs.storage archive.blocks = (table.decoded config.tkvSize fs.storage
        (memRecords fs.memTable name)).partitionOf key := by
    rw [Table.decoded, List.getElem?_map] at hpartition
    exact Option.map_eq_some_iff.mp hpartition
  have hintact : Intact config.tkvSize fs.storage archive.blocks :=
    h.holds.intact _ (owned_subset hlookup
      (List.mem_map_of_mem (List.mem_append_left _ (List.mem_of_getElem? harchive))))
  have hindex : table.partitions[key.toNat % table.partitions.length]? = some archive := harchive
  rw [searchInPartition, hlookup]
  simp only [Option.bind_eq_bind, Option.bind_some, hindex, searchKeyInFsArchive_intact hintact,
    hdecode, archiveAnswer_of_searchFirst (searchFirst_of_unique hunique)]

theorem searchKeyInMemtable_memRecords (h : Valid config fs) (hname : toUppercase name = name)
    (key : UInt16) :
    searchKeyInMemtable fs.memTable name key =
      some (foundOf (latest Record.key time key ((memRecords fs.memTable name).getD []))) := by
  have hfind : searchTableInMemtable fs.memTable name =
      fs.memTable.find? fun table => table.name = name := by
    rw [searchTableInMemtable, ← List.head?_filter, ← List.head?_filter]
    congr 1
    exact List.filter_congr fun memTable hmem => by rw [h.upper memTable hmem, hname]
  rw [searchKeyInMemtable, hfind, memRecords]
  cases hfound : fs.memTable.find? fun table => table.name = name with
  | none => rfl
  | some memTable =>
    obtain ⟨htkvs, hstorable⟩ := h.texts memTable (List.mem_of_find?_eq_some hfound)
    simp only [Option.map_some, Option.getD_some]
    rw [htkvs]
    -- The loop keeps the first newest record it has seen.
    have hloop : ∀ (records : List Record) (best : Option Record), Timed best →
        (∀ record ∈ records, Storable config.tkvSize record) →
        (records.map convertToTkv).foldlM (fun keyFound tkv =>
          (convertRecord tkv).bind fun record =>
            some (if record.key = key ∧ keyFound.timestamp < record.timestamp then record.found
              else keyFound)) (foundOf best) =
          some (foundOf (later time best (latest Record.key time key records))) := by
      intro records
      induction records with
      | nil => exact fun _ _ _ => by simp [latest, entriesOf]
      | cons record records ih =>
        intro best hbest hrecords
        have hrecord := hrecords record List.mem_cons_self
        have hrest : ∀ r ∈ records, Storable config.tkvSize r := fun r hr =>
          hrecords r (List.mem_cons_of_mem _ hr)
        have hone : Timed (latest Record.key time key [record]) :=
          timed_latest (by simpa using hrecord) key
        have hturn : (if record.key = key ∧ (foundOf best).timestamp < record.timestamp then
            record.found else foundOf best) =
            foundOf (later time best (latest Record.key time key [record])) := by
          rw [← foundOf_later hbest hone]
          by_cases hkey : record.key = key
          · simp [hkey, latest, entriesOf, foundOf, Record.found]
          · have hge : ¬ (foundOf best).timestamp < (foundOf none).timestamp := fun hlt =>
              absurd ((foundOf_lt_iff hbest fun _ hnone => absurd hnone (by simp)).mp hlt) (by simp)
            simp [hkey, latest, entriesOf, hge]
        rw [List.map_cons, List.foldlM_cons, convertRecord_text hrecord]
        simp only [Option.bind_eq_bind, Option.bind_some, hturn]
        rw [ih _ (hbest.later hone) hrest, later_assoc, ← latest_append, List.singleton_append]
    have hrun := hloop memTable.records none (fun _ hnone => absurd hnone (by simp)) hstorable
    rw [later_none_left] at hrun
    exact hrun

theorem searchKeyInMemtable_eq (h : Valid config fs) (hview : fs.view config name = some view)
    (key : UInt16) :
    searchKeyInMemtable fs.memTable name key =
      some (foundOf (latest Record.key time key (view.mem.getD []))) := by
  have hname := h.names name view hview
  obtain ⟨table, -, rfl⟩ := Option.map_eq_some_iff.mp hview
  exact searchKeyInMemtable_memRecords h hname key

/-- **SELECT on views.**  Each lookup sees the filesystem as it is at its time. -/
theorem searchKeyAcross_eq {atTmpc atTmp atPartition atMemtable : Filesystem}
    {vTmpc vTmp vPartition vMemtable : TableView} (hTmpc : Valid config atTmpc)
    (hTmp : Valid config atTmp) (hPartition : Valid config atPartition)
    (hMemtable : Valid config atMemtable) (viewTmpc : atTmpc.view config name = some vTmpc)
    (viewTmp : atTmp.view config name = some vTmp)
    (viewPartition : atPartition.view config name = some vPartition)
    (viewMemtable : atMemtable.view config name = some vMemtable) (key : UInt16) :
    searchKeyAcross config atTmpc atTmp atPartition atMemtable name key =
      some (foundOf (later time (later time
        (latest Record.key time key (vPartition.partitionOf key))
        (latest Record.key time key (vMemtable.mem.getD [])))
        (tmpsAnswer atTmp.storage.blockSize key vTmp.tmps))) := by
  have htmp := timed_tmpsAnswer atTmp.storage.blockSize (hTmp.storable viewTmp).2.1 key
  have hpartition : Timed (latest Record.key time key (vPartition.partitionOf key)) := by
    refine timed_latest ((hPartition.storable viewPartition).1 _ ?_) key
    exact List.mem_of_getElem? (TableView.getElem?_route
      (hPartition.partitions_ne name vPartition viewPartition) key)
  have hmemory : Timed (latest Record.key time key (vMemtable.mem.getD [])) := by
    cases hmem : vMemtable.mem with
    | none => exact fun _ hnone => absurd hnone (by simp [latest, entriesOf])
    | some mem => exact timed_latest ((hMemtable.storable viewMemtable).2.2 mem hmem) key
  rw [searchKeyAcross, searchInTmpc_eq hTmpc viewTmpc, searchInAllTmps_eq hTmp viewTmp,
    searchInPartition_eq hPartition viewPartition, searchKeyInMemtable_eq hMemtable viewMemtable]
  simp only [Option.bind_eq_bind, Option.bind_some, mostCurrentKey_foundOf htmp hpartition hmemory]

end Lookups

end Lissandra
