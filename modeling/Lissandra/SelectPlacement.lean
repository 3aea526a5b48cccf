import Lissandra.FilesystemRuns
import Lissandra.SelectView

/-! # SELECT and where the records are

A SELECT of a settled key finds the record stored for it, wherever dumps and compactions
have put its records (`searchKey_moved`).  A key is settled when the search of every
archive finds the first newest of its records, also of the archive that the next dump
would write, and no record in a temporary archive ties with one in memory.

Without the first condition a dump can hide a newer record from SELECT, without the second
one it can change the answer to another record of the same age (`searchKey_not_moved`).
-/
namespace Lissandra

/-- A key whose SELECT does not depend on dumps and compactions. -/
structure Settled (blockSize : Nat) (key : UInt16) (view : TableView) : Prop where
  tmps : ∀ tmp ∈ view.tmps, SearchFirst key (layout convertToTkv blockSize tmp)
  mem : ∀ mem ∈ view.mem, SearchFirst key (layout convertToTkv blockSize mem)
  noTie : ∀ a ∈ latest Record.key time key view.tmps.flatten,
    ∀ b ∈ latest Record.key time key (view.mem.getD []), time a = time b →
      a = b ∨ ∃ c ∈ ofKey key (view.partitionOf key), time a ≤ time c

/-- Dumps and compactions, in any number and order, that find enough free blocks. -/
inductive Moved (config : FsConfig) (fs : Filesystem) : Filesystem → Prop
  | refl : Moved config fs fs
  | dump {fs₁ fs₂ : Filesystem} (moved : Moved config fs fs₁) (run : dump fs₁ = some fs₂)
      (allocated : fs₂.Allocated) : Moved config fs fs₂
  | compaction {fs₁ fs₂ : Filesystem} (table : Bytes) (moved : Moved config fs fs₁)
      (run : compaction config table fs₁ = some fs₂) (allocated : fs₂.Allocated) :
      Moved config fs fs₂

section
variable {blockSize : Nat} {key : UInt16} {tmps : List (List Record)} {view : TableView}

theorem tmpsAnswer_of_searchFirst
    (h : ∀ tmp ∈ tmps, SearchFirst key (layout convertToTkv blockSize tmp)) :
    tmpsAnswer blockSize key tmps = latest Record.key time key tmps.flatten := by
  have hfold : ∀ best, tmps.foldl
      (fun best tmp => later time best (archiveAnswer blockSize key tmp)) best =
      later time best (latest Record.key time key tmps.flatten) := by
    induction tmps with
    | nil => exact fun best => by simp [latest, entriesOf]
    | cons tmp tmps ih =>
      intro best
      rw [List.foldl_cons, ih (fun t ht => h t (List.mem_cons_of_mem _ ht)),
        archiveAnswer_of_searchFirst (h tmp List.mem_cons_self), later_assoc, List.flatten_cons,
        latest_append]
  rw [tmpsAnswer, hfold, later_none_left]

/-- The four lookups of a settled key give the stored record. -/
theorem Settled.answer_eq (h : Settled blockSize key view) :
    later time (later time (latest Record.key time key (view.partitionOf key))
      (latest Record.key time key (view.mem.getD []))) (tmpsAnswer blockSize key view.tmps) =
      view.stored key := by
  rw [tmpsAnswer_of_searchFirst h.tmps, TableView.stored, TableView.records, latest_append,
    latest_append, later_assoc, later_assoc]
  by_cases htie : ∃ a ∈ latest Record.key time key view.tmps.flatten,
      ∃ b ∈ latest Record.key time key (view.mem.getD []), time a = time b ∧ a ≠ b
  · obtain ⟨a, ha, b, hb, htime, hne⟩ := htie
    obtain ⟨c, hc, hle⟩ := (h.noTie a ha b hb htime).resolve_left hne
    -- The partition is as new as both, so neither is the answer.
    obtain ⟨top, -, hpartition, htop⟩ := exists_argmax time (List.ne_nil_of_mem hc)
    have hlatest : latest Record.key time key (view.partitionOf key) = some top := hpartition
    have ha' : latest Record.key time key view.tmps.flatten = some a := ha
    have hb' : latest Record.key time key (view.mem.getD []) = some b := hb
    rw [hlatest, ha', hb', later_some_some, later_some_some, if_neg (by omega), if_neg (by omega)]
    have hatop : time a ≤ time top := hle.trans (htop c hc)
    rw [later_of_le fun y hy => ⟨top, rfl, by obtain rfl := Option.some.inj hy; omega⟩,
      later_of_le fun y hy => ⟨top, rfl, by obtain rfl := Option.some.inj hy; omega⟩]
  · congr 1
    refine later_comm fun b hb a ha htime => ?_
    by_contra hne
    exact htie ⟨a, ha, b, hb, htime.symm, fun heq => hne heq.symm⟩

theorem Settled.dump (h : Settled blockSize key view) : Settled blockSize key view.dump where
  tmps tmp hmem := by
    rcases List.mem_append.mp hmem with hmem | hmem
    · exact h.tmps tmp hmem
    · exact h.mem tmp (Option.mem_toList.mp hmem)
  mem _ hmem := absurd hmem (by simp)
  noTie _ _ b hb _ := absurd hb (by simp [latest, entriesOf])

theorem Settled.compact (h : Settled blockSize key view) : Settled blockSize key view.compact where
  tmps _ hmem := absurd hmem List.not_mem_nil
  mem := h.mem
  noTie a ha _ _ _ := absurd ha (by simp [latest, entriesOf])

end

section
variable {config : FsConfig} {fs fs' : Filesystem} {name : Bytes} {key : UInt16} {view : TableView}

/-- SELECT of a settled key. -/
theorem searchKey_settled (h : Valid config fs) (hview : fs.view config name = some view)
    (hsettled : Settled fs.storage.blockSize key view) :
    searchKey config fs name key = some (foundOf (view.stored key)) := by
  rw [searchKey, searchKeyAcross_eq h h h h hview hview hview hview, hsettled.answer_eq]

/-- What dumps and compactions leave as it was. -/
theorem Moved.settled (hmoved : Moved config fs fs') (h : Valid config fs)
    (hview : fs.view config name = some view) (hsettled : Settled fs.storage.blockSize key view) :
    Valid config fs' ∧ ∃ view', fs'.view config name = some view' ∧
      Settled fs'.storage.blockSize key view' ∧ view'.stored key = view.stored key := by
  induction hmoved with
  | refl => exact ⟨h, view, hview, hsettled, rfl⟩
  | dump _ hrun halloc ih =>
    obtain ⟨hvalid, view₁, hview₁, hsettled₁, hstored⟩ := ih
    obtain ⟨hvalid', -, hsize, hviews⟩ := hvalid.dump hrun halloc
    refine ⟨hvalid', view₁.dump, by rw [hviews, hview₁]; rfl, ?_, ?_⟩
    · rw [hsize]
      exact hsettled₁.dump
    · rw [TableView.stored_dump, hstored]
  | compaction table _ hrun halloc ih =>
    obtain ⟨hvalid, view₁, hview₁, hsettled₁, hstored⟩ := ih
    obtain ⟨hvalid', -, hsize, hviews⟩ := hvalid.compaction hrun halloc
    refine ⟨hvalid', _, by rw [hviews, hview₁]; rfl, ?_, ?_⟩
    · rw [hsize]
      dsimp only
      split
      · exact hsettled₁.compact
      · exact hsettled₁
    · dsimp only
      split
      · rw [TableView.stored_compact (hvalid.routed name view₁ hview₁)
          (hvalid.partitions_ne name view₁ hview₁), hstored]
      · exact hstored

theorem Moved.view_none (hmoved : Moved config fs fs') (h : Valid config fs)
    (hview : fs.view config name = none) : Valid config fs' ∧ fs'.view config name = none := by
  induction hmoved with
  | refl => exact ⟨h, hview⟩
  | dump _ hrun halloc ih =>
    obtain ⟨hvalid, hnone⟩ := ih
    obtain ⟨hvalid', -, -, hviews⟩ := hvalid.dump hrun halloc
    exact ⟨hvalid', by rw [hviews, hnone]; rfl⟩
  | compaction table _ hrun halloc ih =>
    obtain ⟨hvalid, hnone⟩ := ih
    obtain ⟨hvalid', -, -, hviews⟩ := hvalid.compaction hrun halloc
    exact ⟨hvalid', by rw [hviews, hnone]; rfl⟩

theorem searchKey_of_view_none (hview : fs.view config name = none) (key : UInt16) :
    searchKey config fs name key = none := by
  rw [searchKey, searchKeyAcross, searchInTmpc, view_eq_none_iff.mp hview]
  rfl

/-- **SELECT does not depend on where the records of a settled key are.**  In every state
of a run, dumps and compactions before a SELECT change nothing in its answer. -/
theorem searchKey_moved {blockSize blocks : Nat} (hsize : 2 ≤ blockSize)
    (hreach : Reachable config blockSize blocks (fun _ => True) fs)
    (hsettled : ∀ view, fs.view config name = some view → Settled blockSize key view)
    (hmoved : Moved config fs fs') :
    searchKey config fs' name key = searchKey config fs name key ∧
      ((fs.tables.lookup name).isSome → (searchKey config fs name key).isSome) := by
  have hvalid := valid_of_reachable hsize hreach
  obtain hblock := blockSize_of_reachable hsize hreach
  cases hview : fs.view config name with
  | none =>
    obtain ⟨-, hnone⟩ := hmoved.view_none hvalid hview
    rw [searchKey_of_view_none hview, searchKey_of_view_none hnone]
    exact ⟨rfl, fun h => absurd h (by simp [view_eq_none_iff.mp hview])⟩
  | some view =>
    have hsettled' : Settled fs.storage.blockSize key view := hblock ▸ hsettled view hview
    obtain ⟨hvalid', view', hview', hsettled'', hstored⟩ := hmoved.settled hvalid hview hsettled'
    rw [searchKey_settled hvalid hview hsettled', searchKey_settled hvalid' hview' hsettled'',
      hstored]
    exact ⟨rfl, fun _ => rfl⟩

end

/-- Two records of one key in memory, the newer one first. -/
def newerFirst : List Op :=
  [.create ⟨.ofBytes [84], .strongConsistency, 1, 1000⟩,
    .insert 0 ⟨.ofBytes [84], 1, .ofBytes [97], 9⟩,
    .insert 0 ⟨.ofBytes [84], 1, .ofBytes [98], 5⟩]

/-- Two records of one age, one in a temporary archive and one in memory. -/
def tied : List Op :=
  [.create ⟨.ofBytes [84], .strongConsistency, 1, 1000⟩,
    .insert 0 ⟨.ofBytes [84], 1, .ofBytes [97], 9⟩,
    .dump,
    .insert 0 ⟨.ofBytes [84], 1, .ofBytes [98], 9⟩]

theorem dumpedOnce_compacts : ((runOps ⟨32, 8⟩ (Filesystem.formatted 8 32) dumpedOnce).bind
    (compaction ⟨32, 8⟩ [84])).isSome := by decide +kernel

theorem searchKey_moved_dumpedOnce :
    let fs := (runOps ⟨32, 8⟩ (Filesystem.formatted 8 32) dumpedOnce).get dumpedOnce_runs
    let fs' := ((runOps ⟨32, 8⟩ (Filesystem.formatted 8 32) dumpedOnce).bind
      (compaction ⟨32, 8⟩ [84])).get dumpedOnce_compacts
    searchKey ⟨32, 8⟩ fs' [84] 1 = searchKey ⟨32, 8⟩ fs [84] 1 ∧
      ((fs.tables.lookup [84]).isSome → (searchKey ⟨32, 8⟩ fs [84] 1).isSome) := by
  intro fs fs'
  have hfs : runOps ⟨32, 8⟩ (Filesystem.formatted 8 32) dumpedOnce = some fs :=
    (Option.some_get dumpedOnce_runs).symm
  have hrun : compaction ⟨32, 8⟩ [84] fs = some fs' := by
    have hbind : (runOps ⟨32, 8⟩ (Filesystem.formatted 8 32) dumpedOnce).bind
        (compaction ⟨32, 8⟩ [84]) = some fs' := (Option.some_get dumpedOnce_compacts).symm
    rwa [hfs] at hbind
  have hview : Filesystem.view ⟨32, 8⟩ fs [84] =
      some ⟨[[], []], [[⟨10, 1, [97]⟩]], some [⟨11, 1, [98]⟩]⟩ := by decide +kernel
  refine searchKey_moved (by decide) (reachable_runOps .formatted (by decide +kernel) hfs)
    (fun view hv => ?_) (.compaction [84] .refl hrun (by decide +kernel))
  rw [hview] at hv
  obtain rfl := Option.some.inj hv
  refine ⟨fun tmp hmem => ?_, fun mem hmem => ?_, fun a ha b hb htime => ?_⟩
  · obtain rfl := List.mem_singleton.mp hmem
    exact searchFirst_of_unique (by simp [UniqueKeys])
  · obtain rfl := Option.some.inj hmem
    exact searchFirst_of_unique (by simp [UniqueKeys])
  · obtain rfl : (⟨10, 1, [97]⟩ : Record) = a := Option.some.inj ha
    obtain rfl : (⟨11, 1, [98]⟩ : Record) = b := Option.some.inj hb
    exact absurd htime (by decide)

/-- After `newerFirst` a dump cuts the older record behind the newer one, and SELECT goes
back to it; after `tied` a dump puts the record in memory behind the one that was dumped
before, and SELECT changes its answer. -/
theorem searchKey_not_moved :
    (∃ fs fs', Reachable ⟨32, 8⟩ 8 32 (fun _ => True) fs ∧ Moved ⟨32, 8⟩ fs fs' ∧
      searchKey ⟨32, 8⟩ fs [84] 1 = some ⟨9, 1, [97]⟩ ∧
      searchKey ⟨32, 8⟩ fs' [84] 1 = some ⟨5, 1, [98]⟩) ∧
    ∃ fs fs', Reachable ⟨32, 8⟩ 8 32 (fun _ => True) fs ∧ Moved ⟨32, 8⟩ fs fs' ∧
      searchKey ⟨32, 8⟩ fs [84] 1 = some ⟨9, 1, [98]⟩ ∧
      searchKey ⟨32, 8⟩ fs' [84] 1 = some ⟨9, 1, [97]⟩ := by
  have hdump : ∀ (ops : List Op) (before after : Found), (∀ op ∈ ops, op.Sane ⟨32, 8⟩) →
      ((runOps ⟨32, 8⟩ (Filesystem.formatted 8 32) ops).bind fun fs =>
        ((dump fs).filter fun fs' => fs'.Allocated).map fun fs' =>
          (searchKey ⟨32, 8⟩ fs [84] 1, searchKey ⟨32, 8⟩ fs' [84] 1)) =
          some (some before, some after) →
      ∃ fs fs', Reachable ⟨32, 8⟩ 8 32 (fun _ => True) fs ∧ Moved ⟨32, 8⟩ fs fs' ∧
        searchKey ⟨32, 8⟩ fs [84] 1 = some before ∧ searchKey ⟨32, 8⟩ fs' [84] 1 = some after := by
    intro ops before after hops heq
    obtain ⟨fs, hrun, heq⟩ := Option.bind_eq_some_iff.mp heq
    obtain ⟨fs', hfilter, heq⟩ := Option.map_eq_some_iff.mp heq
    obtain ⟨hdump, halloc⟩ := Option.filter_eq_some_iff.mp hfilter
    obtain ⟨hbefore, hafter⟩ := Prod.mk.inj heq
    exact ⟨fs, fs', reachable_runOps .formatted (fun op hop => ⟨trivial, hops op hop⟩) hrun,
      .dump .refl hdump (of_decide_eq_true halloc), hbefore, hafter⟩
  exact ⟨hdump newerFirst _ _ (by decide +kernel) (by decide +kernel),
    hdump tied _ _ (by decide +kernel) (by decide +kernel)⟩

end Lissandra
