import Lissandra.NestedScripts

/-! # Scripts that never end

`on_inner_run_request` and `add_statement` call each other for every `RUN` line, and nothing looks
whether a script is being read already.  The files are whatever the user has written, so reading one
ends exactly if no chain of `RUN` lines that the loader follows goes on forever; of finitely many
files, exactly if no script that is reached runs itself, directly or through others
(`runEnds_iff`).
-/
namespace Lissandra

/-! ## The scripts that are read -/

/-- The scripts that lines have the loader read: those of the `RUN` lines before the first invalid
one. -/
def nestedRuns : List CString → List CString
  | [] => []
  | line :: rest =>
    match scriptCommand line with
    | .invalid => []
    | .statement _ => nestedRuns rest
    | .run path => path :: nestedRuns rest

/-- The same of a file that may be missing. -/
def nestedScripts : Option (List CString) → Set CString
  | none => ∅
  | some lines => { other | other ∈ nestedRuns lines }

/-- Reading a script has another one read. -/
abbrev Nests (files : CString → Option (List CString)) : CString → CString → Prop :=
  Refers files nestedScripts

/-- `process_run` comes to an end, however deep it may go: the process is enqueued, or the script is
rejected and nothing happens. -/
def Scheduler.RunEnds (s : Scheduler) (files : CString → Option (List CString))
    (pointer : PcbPointer) (quantum : Int) (processor : Nat) (input : RunInput) : Prop :=
  ∃ enough s', (∀ depth ≥ enough,
      s.processRun files depth pointer quantum processor input = some s') ∧
    (s' = s ∨ ∃ statements, s' = s.addProcess pointer (getNewPcb statements quantum processor))

/-! ## Reading -/

section Reading
variable {files : CString → Option (List CString)} {path other : CString} {lines : List CString}

/-- Every script that the lines have read is read. -/
theorem nested_of_addLines
    {onInnerRunRequest : List Statement → RunInput → Option (List Statement)}
    {statements : List Statement} {result : Bool × List Statement}
    (h : addLines (addStatement onInnerRunRequest) statements lines = some result)
    (hother : other ∈ nestedRuns lines) :
    ∃ before after, onInnerRunRequest before ⟨other⟩ = some after := by
  induction lines generalizing statements with
  | nil => cases hother
  | cons line rest ih =>
    rw [addLines_cons] at h
    rw [nestedRuns] at hother
    cases hcommand : scriptCommand line with
    | invalid =>
      rw [hcommand] at hother
      cases hother
    | statement statement =>
      rw [hcommand] at h hother
      exact ih h hother
    | run path =>
      rw [hcommand] at h hother
      obtain ⟨after, hinner, hrest⟩ := Option.bind_eq_some_iff.mp h
      rcases List.mem_cons.mp hother with rfl | hother
      · exact ⟨statements, after, hinner⟩
      · exact ih hrest hother

/-- What is read ends, so no chain goes on forever. -/
theorem acc_of_onInnerRunRequest {depth : Nat} {statements : List Statement}
    {result : Bool × List Statement}
    (h : onInnerRunRequest files depth statements ⟨path⟩ = some result) :
    Acc (fun other path => Nests files path other) path := by
  induction depth generalizing path statements result with
  | zero => cases h
  | succ depth ih =>
    refine .intro path fun other hnests => ?_
    unfold Nests Refers at hnests
    cases hfile : files path with
    | none =>
      rw [hfile] at hnests
      cases hnests
    | some lines =>
      rw [hfile] at hnests
      rw [onInnerRunRequest, hfile] at h
      cases lines with
      | nil => cases hnests
      | cons first rest =>
        obtain ⟨before, after, hinner⟩ := nested_of_addLines h hnests
        obtain ⟨result, hresult, -⟩ := Option.map_eq_some_iff.mp hinner
        exact ih hresult

/-- Reading a script ends, with this result wherever it begins. -/
def ReadsTo (files : CString → Option (List CString)) (path : CString) (success : Bool)
    (statements : List Statement) : Prop :=
  ∃ enough, ∀ depth ≥ enough, ∀ before,
    onInnerRunRequest files depth before ⟨path⟩ = some (success, before ++ statements)

/-- Lines end if the scripts do that they have read. -/
theorem exists_addLines (h : ∀ other ∈ nestedRuns lines, ∃ success statements,
      ReadsTo files other success statements) :
    ∃ success statements enough, ∀ depth ≥ enough, ∀ before,
      addLines (addStatement fun before input =>
        (onInnerRunRequest files depth before input).map Prod.snd) before lines
          = some (success, before ++ statements) := by
  induction lines with
  | nil =>
    refine ⟨true, [], 0, fun depth _ before => ?_⟩
    rw [addLines, List.append_nil]
  | cons line rest ih =>
    rw [nestedRuns] at h
    cases hcommand : scriptCommand line with
    | invalid =>
      refine ⟨false, [], 0, fun depth _ before => ?_⟩
      rw [addLines_cons, hcommand, List.append_nil]
    | statement statement =>
      rw [hcommand] at h
      obtain ⟨success, statements, enough, hrest⟩ := ih h
      refine ⟨success, statement :: statements, enough, fun depth hdepth before => ?_⟩
      rw [addLines_cons, hcommand]
      dsimp only
      rw [hrest depth hdepth, List.append_assoc, List.singleton_append]
    | run other =>
      rw [hcommand] at h
      dsimp only at h
      rw [List.forall_mem_cons] at h
      obtain ⟨⟨_, inner, innerEnough, hinner⟩, hothers⟩ := h
      obtain ⟨success, statements, enough, hrest⟩ := ih hothers
      refine ⟨success, inner ++ statements, max innerEnough enough, fun depth hdepth before => ?_⟩
      rw [addLines_cons, hcommand]
      dsimp only
      rw [hinner depth (le_trans (le_max_left _ _) hdepth), Option.map_some, Option.bind_some,
        hrest depth (le_trans (le_max_right _ _) hdepth), List.append_assoc]

/-- A script ends if no chain from it goes on forever. -/
theorem exists_readsTo (h : Acc (fun other path => Nests files path other) path) :
    ∃ success statements, ReadsTo files path success statements := by
  induction h with
  | intro path _ ih =>
    have hmissing : files path = none ∨ files path = some [] →
        ∃ success statements, ReadsTo files path success statements := by
      intro hfile
      refine ⟨false, [], 1, fun depth hdepth before => ?_⟩
      obtain ⟨deeper, rfl⟩ := Nat.exists_eq_add_of_le' hdepth
      rw [onInnerRunRequest]
      rcases hfile with hfile | hfile
      · rw [hfile, List.append_nil]
      · rw [hfile, List.append_nil]
    cases hfile : files path with
    | none => exact hmissing (.inl hfile)
    | some lines =>
      cases lines with
      | nil => exact hmissing (.inr hfile)
      | cons first rest =>
        obtain ⟨success, statements, enough, hlines⟩ := exists_addLines fun other hother =>
          ih other (by unfold Nests Refers; rw [hfile]; exact hother)
        refine ⟨success, statements, enough + 1, fun depth hdepth before => ?_⟩
        obtain ⟨deeper, rfl⟩ : ∃ deeper, depth = deeper + 1 := ⟨depth - 1, by omega⟩
        rw [onInnerRunRequest, hfile]
        exact hlines deeper (by omega) before

end Reading

/-! ## Running -/

section Running
variable {files : CString → Option (List CString)} {s : Scheduler} {pointer : PcbPointer}

theorem acc_of_processRun {depth : Nat} {quantum : Int} {processor : Nat} {input : RunInput}
    {s' : Scheduler} (h : s.processRun files depth pointer quantum processor input = some s') :
    Acc (fun other path => Nests files path other) input.path := by
  obtain ⟨result, hresult, -⟩ := Option.bind_eq_some_iff.mp h
  exact acc_of_onInnerRunRequest hresult

theorem runEnds_of_acc (hfree : s.pcb pointer = none) (quantum : Int) (processor : Nat)
    {input : RunInput} (h : Acc (fun other path => Nests files path other) input.path) :
    s.RunEnds files pointer quantum processor input := by
  obtain ⟨success, statements, enough, hreads⟩ := exists_readsTo h
  refine ⟨enough, if success then s.addProcess pointer (getNewPcb statements quantum processor)
    else s, fun depth hdepth => ?_, ?_⟩
  · rw [Scheduler.processRun, hreads depth hdepth, Option.bind_eq_bind, Option.bind_some]
    cases success with
    | true =>
      show (if s.pcb pointer = none then _ else _) = _
      rw [if_pos hfree]
      rfl
    | false => rfl
  · cases success with
    | true => exact .inr ⟨statements, rfl⟩
    | false => exact .inl rfl

/-- **When `process_run` comes to an end**: exactly if no chain of `RUN` lines that the loader
follows goes on forever.  Otherwise it has no result, however deep it goes.  Among finitely many
files such a chain is a script that runs itself, directly or through others. -/
theorem runEnds_iff (hfree : s.pcb pointer = none) (files : CString → Option (List CString))
    (quantum : Int) (processor : Nat) (input : RunInput) :
    (s.RunEnds files pointer quantum processor input ↔
      ¬ ∃ chain : ℕ → CString, chain 0 = input.path ∧ ∀ n, Nests files (chain n) (chain (n + 1))) ∧
    (¬ s.RunEnds files pointer quantum processor input →
      ∀ depth, s.processRun files depth pointer quantum processor input = none) ∧
    ((Set.range files).Finite → (s.RunEnds files pointer quantum processor input ↔
      ∀ other, Relation.ReflTransGen (Nests files) input.path other →
        ¬ Relation.TransGen (Nests files) other other)) := by
  have hacc : s.RunEnds files pointer quantum processor input ↔
      Acc (fun other path => Nests files path other) input.path := by
    refine ⟨fun hends => ?_, runEnds_of_acc hfree quantum processor⟩
    obtain ⟨enough, s', hrun, -⟩ := hends
    exact acc_of_processRun (hrun enough (le_refl enough))
  refine ⟨?_, fun hnot depth => ?_, fun hfinite => hacc.trans (acc_refers_iff hfinite _)⟩
  · rw [hacc]
    constructor
    · exact fun h hchain => not_acc_iff_exists_descending_chain.mpr hchain h
    · intro h
      by_contra hnot
      exact h (not_acc_iff_exists_descending_chain.mp hnot)
  · cases hrun : s.processRun files depth pointer quantum processor input with
    | none => rfl
    | some s' => exact absurd (hacc.mpr (acc_of_processRun hrun)) hnot

/-- The script `A` has the line `RUN A`. -/
def selfScript : ScriptDisk := fun path =>
  if path = .ofBytes [65] then some [82, 85, 78, 32, 65, 10] else none

theorem selfScript_nests : Nests selfScript.loaded (.ofBytes [65]) (.ofBytes [65]) := by
  have hrun : CString.ofBytes [65] ∈ nestedRuns [.ofBytes [82, 85, 78, 32, 65]] :=
    List.mem_cons_self
  exact hrun

/-- A script that runs itself is read forever. -/
theorem not_runEnds :
    (∀ (s : Scheduler) (pointer : PcbPointer) (quantum : Int) (processor depth : Nat),
        s.processRun selfScript.loaded depth pointer quantum processor ⟨.ofBytes [65]⟩ = none) ∧
      ¬ ∀ (disk : ScriptDisk) (s : Scheduler) (pointer : PcbPointer) (quantum : Int)
        (processor : Nat) (input : RunInput), s.pcb pointer = none →
          s.RunEnds disk.loaded pointer quantum processor input := by
  have hnot : ¬ Acc (fun other path => Nests selfScript.loaded path other) (.ofBytes [65]) :=
    not_acc_iff_exists_descending_chain.mpr ⟨fun _ => .ofBytes [65], rfl, fun _ => selfScript_nests⟩
  refine ⟨fun s pointer quantum processor depth => ?_, fun hall => ?_⟩
  · cases hrun : s.processRun selfScript.loaded depth pointer quantum processor ⟨.ofBytes [65]⟩ with
    | none => rfl
    | some s' => exact absurd (acc_of_processRun hrun) hnot
  · obtain ⟨enough, s', hrun, -⟩ :=
      hall selfScript (setupScheduler 1 1) 0 0 0 ⟨.ofBytes [65]⟩ rfl
    exact hnot (acc_of_processRun (hrun enough (le_refl enough)))

/-- The script `A` runs `B`, which has a `JOURNAL`. -/
theorem runEnds_twoScripts :
    (setupScheduler 1 1).RunEnds (twoScripts (some [74, 79, 85, 82, 78, 65, 76, 10])).loaded 0 0 0
      ⟨.ofBytes [65]⟩ := by
  refine (runEnds_iff rfl _ 0 0 _).1.mpr ?_
  rintro ⟨chain, hstart, hchain⟩
  have hfirst := hchain 0
  rw [hstart] at hfirst
  have hruns : chain 1 ∈ [CString.ofBytes [66]] := hfirst
  have hsecond := hchain 1
  rw [List.mem_singleton.mp hruns] at hsecond
  have hnothing : chain 2 ∈ ([] : List CString) := hsecond
  cases hnothing

end Running

end Lissandra
