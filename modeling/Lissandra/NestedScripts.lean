import Lissandra.References
import Lissandra.Scheduler
import Lissandra.TypedNumbers
import Mathlib.Data.Set.Finite.Basic

/-! # Scripts that run scripts

`process_run` reads a script line by line and collects its statements in the list of a new process;
a `RUN` line has the lines of another script read into the same list.  What comes out of that
inner reading, `add_statement` does not look at.  A script that is missing, empty or invalid below
the first one leaves the statements that were collected of it in the list, and the process is
enqueued with them (`allOrNothing_iff`).

`get_file_lines` takes the last byte of every line for its newline.  A last line without one is read
without its last byte, which may be another command (`ReadsCommands`).
-/
namespace Lissandra

/-! ## Files -/

/-- What `getline` returns, one after the other, with the newlines. -/
def getLines : Bytes → Bytes → List Bytes
  | line, [] => if line = [] then [] else [line]
  | line, b :: rest =>
    if b = newline then (line ++ [b]) :: getLines [] rest else getLines (line ++ [b]) rest

/-- `get_file_lines`, of what a file contains. -/
def getFileLines (contents : Bytes) : List CString :=
  (getLines [] contents).map fun line => .ofBytes line.dropLast

/-- The lines of a text, without the newlines. -/
def splitLines : Bytes → Bytes → List Bytes
  | line, [] => if line = [] then [] else [line]
  | line, b :: rest =>
    if b = newline then line :: splitLines [] rest else splitLines (line ++ [b]) rest

/-- The lines of a file. -/
def fileLines (contents : Bytes) : List CString := (splitLines [] contents).map .ofBytes

/-- The last line ends, too. -/
def EndsInNewline (contents : Bytes) : Prop := contents = [] ∨ contents.getLast? = some newline

instance (contents : Bytes) : Decidable (EndsInNewline contents) :=
  inferInstanceAs (Decidable (_ ∨ _))

/-- What the files contain that can be opened. -/
abbrev ScriptDisk := CString → Option Bytes

/-- The lines that the loader sees. -/
def ScriptDisk.loaded (disk : ScriptDisk) (path : CString) : Option (List CString) :=
  (disk path).map getFileLines

/-- The lines of a script. -/
def ScriptDisk.script (disk : ScriptDisk) (path : CString) : Option (List CString) :=
  (disk path).map fileLines

theorem getLines_dropLast {line contents : Bytes} (hline : contents = [] → line = [])
    (hlast : contents ≠ [] → contents.getLast? = some newline) :
    (getLines line contents).map List.dropLast = splitLines line contents := by
  induction contents generalizing line with
  | nil =>
    rw [hline rfl]
    rfl
  | cons b rest ih =>
    have hend := hlast (List.cons_ne_nil b rest)
    have hrest : rest ≠ [] → rest.getLast? = some newline := by
      intro hne
      rw [List.getLast?_cons_of_ne_nil hne] at hend
      exact hend
    rw [getLines, splitLines]
    split_ifs with hb
    · rw [List.map_cons, List.dropLast_concat, ih (fun _ => rfl) hrest]
    · refine ih (fun hempty => ?_) hrest
      rw [hempty] at hend
      exact absurd (Option.some.inj hend) hb

theorem getFileLines_eq {contents : Bytes} (h : EndsInNewline contents) :
    getFileLines contents = fileLines contents := by
  rw [fileLines, ← getLines_dropLast (fun _ => rfl) fun hne => h.resolve_left hne, List.map_map]
  rfl

/-! ## Commands -/

/-- What a line of a script is: an invalid command or one that is not allowed, a statement, or
another script. -/
inductive ScriptCommand where
  | invalid
  | statement (statement : Statement)
  | run (path : CString)

/-- The command of a line. -/
def scriptCommand (line : CString) : ScriptCommand :=
  let operation := getOperation line
  if operation = .invalid ∨ operationAllowed operation .kernel = false ∨
      validateInput operation line = false then .invalid
  else if operation ≠ .run ∧ Operation.journal.toNat < operation.toNat then .invalid
  else
    match processInput operation line with
    | some (.run input) => .run input.path
    | some call => .statement (call.statement operation)
    | none => .invalid

/-- **One line** of a script. -/
theorem addLines_cons (onInnerRunRequest : List Statement → RunInput → Option (List Statement))
    (statements : List Statement) (line : CString) (rest : List CString) :
    addLines (addStatement onInnerRunRequest) statements (line :: rest) =
      match scriptCommand line with
      | .invalid => some (false, statements)
      | .statement statement =>
        addLines (addStatement onInnerRunRequest) (statements ++ [statement]) rest
      | .run path => (onInnerRunRequest statements ⟨path⟩).bind fun statements =>
        addLines (addStatement onInnerRunRequest) statements rest := by
  rw [addLines, scriptCommand]
  split_ifs with hinvalid hforbidden
  · rfl
  · rfl
  · rw [not_or, not_or] at hinvalid
    obtain ⟨hoperation, -, hvalid⟩ := hinvalid
    rw [Bool.not_eq_false] at hvalid
    obtain ⟨call, hcall⟩ := exists_processInput hvalid
    rw [hcall]
    by_cases hrun : getOperation line = .run
    · rw [hrun] at hcall ⊢
      obtain ⟨input, hinput, rfl⟩ := Option.map_eq_some_iff.mp hcall
      show (runInput _ >>= _) >>= _ = _
      rw [hinput]
      rfl
    · have hscript : getOperation line ∉ [Operation.add, .metrics, .run] := by
        revert hforbidden hrun
        cases getOperation line <;> decide
      rw [addStatement_eq_processInput hscript hoperation, hcall]
      have hcallrun : ∀ input, call ≠ .run input := by
        rintro input rfl
        revert hcall hrun
        unfold processInput
        cases getOperation line <;> simp
      cases call with
      | run input => exact absurd rfl (hcallrun input)
      | _ => rfl

/-- The loader sees the commands of the file. -/
def ReadsCommands (contents : Bytes) : Prop :=
  (getFileLines contents).map scriptCommand = (fileLines contents).map scriptCommand

theorem EndsInNewline.readsCommands {contents : Bytes} (h : EndsInNewline contents) :
    ReadsCommands contents := by
  rw [ReadsCommands, getFileLines_eq h]

/-- Of a line only its command matters. -/
theorem addLines_congr {onInnerRunRequest : List Statement → RunInput → Option (List Statement)}
    {lines read : List CString} (h : read.map scriptCommand = lines.map scriptCommand)
    (statements : List Statement) :
    addLines (addStatement onInnerRunRequest) statements read =
      addLines (addStatement onInnerRunRequest) statements lines := by
  induction lines generalizing read statements with
  | nil =>
    rw [List.map_nil, List.map_eq_nil_iff] at h
    rw [h]
  | cons line rest ih =>
    obtain ⟨first, others, rfl, hfirst, hothers⟩ := List.map_eq_cons_iff.mp h
    rw [addLines_cons, addLines_cons, hfirst]
    cases scriptCommand line with
    | invalid => rfl
    | statement statement => exact ih hothers _
    | run path =>
      exact congrArg (Option.bind _) (funext fun statements => ih hothers statements)

/-! ## Scripts and their statements -/

/-- The scripts that a script runs. -/
def runReferences : Option Bytes → Set CString
  | none => ∅
  | some contents => { other | ∃ line ∈ fileLines contents, scriptCommand line = .run other }

/-- A script that runs another one. -/
abbrev ScriptDisk.Runs (disk : ScriptDisk) : CString → CString → Prop := Refers disk runReferences

/-- The file exists and is not empty, and each of its lines is a valid command that is allowed. -/
def ScriptDisk.OwnValid (disk : ScriptDisk) (path : CString) : Prop :=
  ∃ lines, disk.script path = some lines ∧ lines ≠ [] ∧
    ∀ line ∈ lines, scriptCommand line ≠ .invalid

/-- So are the files of all scripts that it runs. -/
def ScriptDisk.AllValid (disk : ScriptDisk) (path : CString) : Prop :=
  ∀ other, Relation.ReflTransGen disk.Runs path other → disk.OwnValid other

/-- The commands of lines in their order, where those of a script take the place of its `RUN`. -/
inductive Expands (script : CString → Option (List CString)) :
    List CString → List Statement → Prop
  | nil : Expands script [] []
  | statement {line : CString} {rest : List CString} {statement : Statement}
      {statements : List Statement} (command : scriptCommand line = .statement statement)
      (expanded : Expands script rest statements) :
      Expands script (line :: rest) (statement :: statements)
  | run {line path : CString} {rest lines : List CString} {inner statements : List Statement}
      (command : scriptCommand line = .run path) (file : script path = some lines)
      (inserted : Expands script lines inner) (expanded : Expands script rest statements) :
      Expands script (line :: rest) (inner ++ statements)

/-- `process_run`.  The process is at an address that `malloc` has for it, or deleted. -/
def Scheduler.processRun (s : Scheduler) (files : CString → Option (List CString)) (depth : Nat)
    (pointer : PcbPointer) (quantum : Int) (processor : Nat) (input : RunInput) :
    Option Scheduler := do
  let (success, statements) ← onInnerRunRequest files depth [] input
  if success then s.step (.arrive pointer statements quantum processor) else some s

/-- A process is enqueued exactly if the script and all that it runs are valid, with the commands of
the files as its statements.  Otherwise nothing happens. -/
def AllOrNothing (disk : ScriptDisk) (input : RunInput) : Prop :=
  ∃ enough, ∀ depth ≥ enough, ∀ (s : Scheduler) (pointer : PcbPointer) (quantum : Int)
    (processor : Nat), s.pcb pointer = none →
      (disk.AllValid input.path → ∃ lines statements, disk.script input.path = some lines ∧
        Expands disk.script lines statements ∧
        s.processRun disk.loaded depth pointer quantum processor input
          = some (s.addProcess pointer (getNewPcb statements quantum processor))) ∧
      (¬ disk.AllValid input.path →
        s.processRun disk.loaded depth pointer quantum processor input = some s)

/-! ## What the loader collects -/

section Loading
variable {disk : ScriptDisk} {path other : CString} {lines rest : List CString} {line : CString}

theorem ScriptDisk.AllValid.of_runs (h : disk.AllValid path) (hruns : disk.Runs path other) :
    disk.AllValid other := fun last hlast => h last (hlast.head hruns)

/-- What a script has the loader do, when it may go deep enough: whether it succeeds depends on the
lines of its own file, and it collects the right statements if all scripts are valid. -/
structure Loads (disk : ScriptDisk) (path : CString) (success : Bool)
    (statements : List Statement) : Prop where
  loaded : ∃ enough, ∀ depth ≥ enough, ∀ before,
    onInnerRunRequest disk.loaded depth before ⟨path⟩ = some (success, before ++ statements)
  own : success = true ↔ disk.OwnValid path
  expanded : disk.AllValid path → ∃ lines, disk.script path = some lines ∧
    Expands disk.script lines statements

/-- What lines of a script have it do. -/
structure LoadsLines (disk : ScriptDisk) (lines : List CString) (success : Bool)
    (statements : List Statement) : Prop where
  loaded : ∃ enough, ∀ depth ≥ enough, ∀ before,
    addLines (addStatement fun before input =>
      (onInnerRunRequest disk.loaded depth before input).map Prod.snd) before lines
        = some (success, before ++ statements)
  own : success = true ↔ ∀ line ∈ lines, scriptCommand line ≠ .invalid
  expanded : (∀ line ∈ lines, scriptCommand line ≠ .invalid) →
    (∀ line ∈ lines, ∀ other, scriptCommand line = .run other → disk.AllValid other) →
      Expands disk.script lines statements

theorem loadsLines_nil (disk : ScriptDisk) : LoadsLines disk [] true [] := by
  refine ⟨⟨0, fun depth _ before => ?_⟩, ?_, fun _ _ => .nil⟩
  · rw [addLines, List.append_nil]
  · simp

theorem loadsLines_invalid (h : scriptCommand line = .invalid) (rest : List CString) :
    LoadsLines disk (line :: rest) false [] := by
  have hnot : ¬ ∀ other ∈ line :: rest, scriptCommand other ≠ .invalid := fun hall =>
    hall line List.mem_cons_self h
  refine ⟨⟨0, fun depth _ before => ?_⟩, by simp [h], fun hall => absurd hall hnot⟩
  rw [addLines_cons, h, List.append_nil]

theorem LoadsLines.statement {statement : Statement} {success : Bool}
    {statements : List Statement} (h : scriptCommand line = .statement statement)
    (hrest : LoadsLines disk rest success statements) :
    LoadsLines disk (line :: rest) success (statement :: statements) := by
  obtain ⟨⟨enough, hloaded⟩, hown, hexpanded⟩ := hrest
  refine ⟨⟨enough, fun depth hdepth before => ?_⟩, ?_, fun hall hnested => ?_⟩
  · rw [addLines_cons, h]
    dsimp only
    rw [hloaded depth hdepth, List.append_assoc, List.singleton_append]
  · rw [hown, List.forall_mem_cons, h]
    simp
  · refine .statement h (hexpanded ?_ ?_)
    · exact fun other hother => hall other (List.mem_cons_of_mem _ hother)
    · exact fun other hother => hnested other (List.mem_cons_of_mem _ hother)

theorem LoadsLines.run {inner statements : List Statement} {success innerSuccess : Bool}
    (h : scriptCommand line = .run other) (hinner : Loads disk other innerSuccess inner)
    (hrest : LoadsLines disk rest success statements) :
    LoadsLines disk (line :: rest) success (inner ++ statements) := by
  obtain ⟨⟨innerEnough, hinnerLoaded⟩, -, hinnerExpanded⟩ := hinner
  obtain ⟨⟨enough, hloaded⟩, hown, hexpanded⟩ := hrest
  refine ⟨⟨max innerEnough enough, fun depth hdepth before => ?_⟩, ?_, fun hall hnested => ?_⟩
  · rw [addLines_cons, h]
    dsimp only
    -- whether the other script was read to its end is not looked at
    rw [hinnerLoaded depth (le_trans (le_max_left _ _) hdepth), Option.map_some, Option.bind_some,
      hloaded depth (le_trans (le_max_right _ _) hdepth), List.append_assoc]
  · rw [hown, List.forall_mem_cons, h]
    simp
  · obtain ⟨lines, hfile, hlines⟩ := hinnerExpanded (hnested line List.mem_cons_self other h)
    refine .run h hfile hlines (hexpanded ?_ ?_)
    · exact fun other hother => hall other (List.mem_cons_of_mem _ hother)
    · exact fun other hother => hnested other (List.mem_cons_of_mem _ hother)

/-- Lines whose scripts come to an end. -/
theorem exists_loadsLines (h : ∀ line ∈ lines, ∀ other, scriptCommand line = .run other →
      ∃ success statements, Loads disk other success statements) :
    ∃ success statements, LoadsLines disk lines success statements := by
  induction lines with
  | nil => exact ⟨true, [], loadsLines_nil disk⟩
  | cons line rest ih =>
    obtain ⟨success, statements, hrest⟩ := ih fun other hother => h other
      (List.mem_cons_of_mem _ hother)
    cases hcommand : scriptCommand line with
    | invalid => exact ⟨false, [], loadsLines_invalid hcommand rest⟩
    | statement statement => exact ⟨success, _, hrest.statement hcommand⟩
    | run other =>
      obtain ⟨innerSuccess, inner, hinner⟩ := h line List.mem_cons_self other hcommand
      exact ⟨success, _, hrest.run hcommand hinner⟩

/-- A script whose file cannot be opened or is empty. -/
theorem loads_missing (hread : ∀ contents ∈ disk path, ReadsCommands contents)
    (h : disk.script path = none ∨ disk.script path = some []) : Loads disk path false [] := by
  have hnot : ¬ disk.OwnValid path := by
    rintro ⟨lines, hlines, hne, -⟩
    rcases h with h | h
    · rw [h] at hlines
      cases hlines
    · rw [h] at hlines
      exact hne (Option.some.inj hlines).symm
  refine ⟨⟨1, fun depth hdepth before => ?_⟩, by simp [hnot], fun hall => ?_⟩
  swap
  · exact absurd (hall path .refl) hnot
  obtain ⟨deeper, rfl⟩ := Nat.exists_eq_add_of_le' hdepth
  rw [onInnerRunRequest]
  rcases h with h | h
  · have hnone : disk.loaded path = none := by
      rw [ScriptDisk.loaded, Option.map_eq_none_iff.mp h, Option.map_none]
    rw [hnone, List.append_nil]
  · obtain ⟨contents, hcontents, hlines⟩ := Option.map_eq_some_iff.mp h
    have hempty : disk.loaded path = some [] := by
      have hcommands := hread contents hcontents
      rw [ReadsCommands, hlines, List.map_nil, List.map_eq_nil_iff] at hcommands
      rw [ScriptDisk.loaded, hcontents, Option.map_some, hcommands]
    rw [hempty, List.append_nil]

/-- A script with lines. -/
theorem LoadsLines.loads {success : Bool} {statements : List Statement}
    (hlines : LoadsLines disk lines success statements) (hne : lines ≠ [])
    (hread : ∀ contents ∈ disk path, ReadsCommands contents)
    (hfile : disk.script path = some lines) : Loads disk path success statements := by
  obtain ⟨⟨enough, hloaded⟩, hown, hexpanded⟩ := hlines
  obtain ⟨read, hseen, hcommands⟩ : ∃ read, disk.loaded path = some read ∧
      read.map scriptCommand = lines.map scriptCommand := by
    obtain ⟨contents, hcontents, rfl⟩ := Option.map_eq_some_iff.mp hfile
    exact ⟨_, Option.map_eq_some_iff.mpr ⟨contents, hcontents, rfl⟩, hread contents hcontents⟩
  refine ⟨⟨enough + 1, fun depth hdepth before => ?_⟩, ?_, fun hall => ?_⟩
  · obtain ⟨deeper, rfl⟩ : ∃ deeper, depth = deeper + 1 := ⟨depth - 1, by omega⟩
    rw [onInnerRunRequest, hseen]
    cases read with
    | nil => exact absurd (List.map_eq_nil_iff.mp hcommands.symm) hne
    | cons first rest =>
      have hlines := hloaded deeper (by omega) before
      exact (addLines_congr hcommands before).trans hlines
  · rw [hown]
    constructor
    · exact fun hvalid => ⟨lines, hfile, hne, hvalid⟩
    · rintro ⟨others, hothers, -, hvalid⟩
      obtain rfl := Option.some.inj (hfile.symm.trans hothers)
      exact hvalid
  · obtain ⟨others, hothers, -, hvalid⟩ := hall path .refl
    obtain rfl := Option.some.inj (hfile.symm.trans hothers)
    refine ⟨lines, hfile, hexpanded hvalid fun line hline other hrun => hall.of_runs ?_⟩
    obtain ⟨contents, hcontents, rfl⟩ := Option.map_eq_some_iff.mp hfile
    rw [ScriptDisk.Runs, Refers, hcontents]
    exact ⟨line, hline, hrun⟩

/-- **Every script is read to an end** where no scripts run each other in a circle. -/
theorem exists_loads (hwf : WellFounded fun other path => disk.Runs path other) (path : CString)
    (hreads : ∀ other, Relation.ReflTransGen disk.Runs path other →
      ∀ contents ∈ disk other, ReadsCommands contents) :
    ∃ success statements, Loads disk path success statements := by
  induction path using hwf.induction with
  | h path ih =>
    have hread := hreads path .refl
    cases hfile : disk.script path with
    | none => exact ⟨false, [], loads_missing hread (.inl hfile)⟩
    | some lines =>
      by_cases hne : lines = []
      · exact ⟨false, [], loads_missing hread (.inr (hne ▸ hfile))⟩
      · have hnested : ∀ line ∈ lines, ∀ other, scriptCommand line = .run other →
            ∃ success statements, Loads disk other success statements := by
          intro line hline other hrun
          have hruns : disk.Runs path other := by
            obtain ⟨contents, hcontents, rfl⟩ := Option.map_eq_some_iff.mp hfile
            rw [ScriptDisk.Runs, Refers, hcontents]
            exact ⟨line, hline, hrun⟩
          exact ih other hruns fun last hlast => hreads last (hlast.head hruns)
        obtain ⟨success, statements, hlines⟩ := exists_loadsLines hnested
        exact ⟨success, statements, hlines.loads hne hread hfile⟩

end Loading

/-! ## All or nothing -/

theorem addProcess_ne (s : Scheduler) (pointer : PcbPointer) (pcb : Pcb) :
    s.addProcess pointer pcb ≠ s := by
  intro heq
  have hlength := congrArg (fun s => s.new.length) heq
  simp [Scheduler.addProcess] at hlength

/-- What `process_run` does with a script that is read to an end. -/
theorem Loads.processRun {disk : ScriptDisk} {path : CString} {success : Bool}
    {statements : List Statement} (h : Loads disk path success statements) :
    ∃ enough, ∀ depth ≥ enough, ∀ (s : Scheduler) (pointer : PcbPointer) (quantum : Int)
      (processor : Nat), s.pcb pointer = none →
        s.processRun disk.loaded depth pointer quantum processor ⟨path⟩ = some (if success then
          s.addProcess pointer (getNewPcb statements quantum processor) else s) := by
  obtain ⟨⟨enough, hloaded⟩, -, -⟩ := h
  refine ⟨enough, fun depth hdepth s pointer quantum processor hfree => ?_⟩
  rw [Scheduler.processRun, hloaded depth hdepth, Option.bind_eq_bind, Option.bind_some]
  cases success with
  | true =>
    show (if s.pcb pointer = none then _ else _) = _
    rw [if_pos hfree]
    rfl
  | false => rfl

/-- A script that is valid itself is enqueued, so all scripts that it runs must be. -/
theorem Loads.allValid {disk : ScriptDisk} {path : CString} {success : Bool}
    {statements : List Statement} (h : Loads disk path success statements)
    (hall : AllOrNothing disk ⟨path⟩) (hvalid : disk.OwnValid path) : disk.AllValid path := by
  by_contra hnot
  obtain ⟨enough, hall⟩ := hall
  obtain ⟨loaded, hrun⟩ := h.processRun
  have hboth := hall (max enough loaded) (le_max_left _ _) (setupScheduler 1 1) 0 0 0 rfl
  have hnothing := hboth.2 hnot
  have hsome := hrun (max enough loaded) (le_max_right _ _) (setupScheduler 1 1) 0 0 0 rfl
  rw [h.own.mpr hvalid, if_pos rfl] at hsome
  exact addProcess_ne _ _ _ (Option.some.inj (hsome.symm.trans hnothing))

/-- **When a `RUN` is all or nothing**: exactly if its own file is missing, empty or invalid, or all
scripts that it runs are valid. -/
theorem allOrNothing_iff {disk : ScriptDisk} {input : RunInput} (hfinite : (Set.range disk).Finite)
    (hacyclic : ∀ path, ¬ Relation.TransGen disk.Runs path path)
    (hreads : ∀ other, Relation.ReflTransGen disk.Runs input.path other →
      ∀ contents ∈ disk other, ReadsCommands contents) :
    AllOrNothing disk input ↔ (disk.OwnValid input.path →
      ∀ other, Relation.TransGen disk.Runs input.path other → disk.OwnValid other) := by
  obtain ⟨path⟩ := input
  obtain ⟨success, statements, hloads⟩ :=
    exists_loads (wellFounded_of_acyclic hfinite hacyclic) path hreads
  constructor
  · intro hall hvalid other hother
    exact hloads.allValid hall hvalid other hother.to_reflTransGen
  · intro hnested
    obtain ⟨enough, hrun⟩ := hloads.processRun
    refine ⟨enough, fun depth hdepth s pointer quantum processor hfree => ⟨fun hall => ?_, ?_⟩⟩
    · obtain ⟨lines, hlines, hstatements⟩ := hloads.expanded hall
      refine ⟨lines, statements, hlines, hstatements, ?_⟩
      rw [hrun depth hdepth s pointer quantum processor hfree, hloads.own.mpr (hall path .refl),
        if_pos rfl]
    · intro hnot
      have hfailed : success = false := by
        by_contra hsuccess
        rw [Bool.not_eq_false] at hsuccess
        have hvalid := hloads.own.mp hsuccess
        refine hnot fun other hother => ?_
        rcases Relation.reflTransGen_iff_eq_or_transGen.mp hother with rfl | hother
        · exact hvalid
        · exact hnested hvalid other hother
      rw [hrun depth hdepth s pointer quantum processor hfree, hfailed]
      rfl

/-! ## Two scripts -/

/-- The script `A` has the lines `RUN B` and `JOURNAL`. -/
def twoScripts (second : Option Bytes) : ScriptDisk := fun path =>
  if path = .ofBytes [65] then
    some [82, 85, 78, 32, 66, 10, 74, 79, 85, 82, 78, 65, 76, 10]
  else if path = .ofBytes [66] then second
  else none

section TwoScripts
variable {second : Option Bytes}

theorem twoScripts_first (second : Option Bytes) : (twoScripts second).script (.ofBytes [65])
    = some [.ofBytes [82, 85, 78, 32, 66], .ofBytes [74, 79, 85, 82, 78, 65, 76]] := rfl

theorem finite_range_twoScripts (second : Option Bytes) :
    (Set.range (twoScripts second)).Finite := by
  refine Set.Finite.subset (Set.toFinite {twoScripts second (.ofBytes [65]), second, none}) ?_
  rintro _ ⟨path, rfl⟩
  by_cases hfirst : path = .ofBytes [65]
  · exact .inl (hfirst ▸ rfl)
  · by_cases hsecond : path = .ofBytes [66]
    · refine .inr (.inl ?_)
      rw [twoScripts, if_neg hfirst, if_pos hsecond]
    · refine .inr (.inr ?_)
      rw [twoScripts, if_neg hfirst, if_neg hsecond]
      rfl

/-- `A` runs `B`, and `B` runs nothing. -/
theorem twoScripts_runs (hsecond : runReferences second = ∅) {path other : CString}
    (h : (twoScripts second).Runs path other) :
    path = .ofBytes [65] ∧ other = .ofBytes [66] := by
  unfold ScriptDisk.Runs Refers twoScripts at h
  split_ifs at h with hfirst
  · obtain ⟨line, hline, hrun⟩ := h
    have hlines : line ∈ [CString.ofBytes [82, 85, 78, 32, 66],
        .ofBytes [74, 79, 85, 82, 78, 65, 76]] := hline
    rcases List.mem_cons.mp hlines with rfl | hlines
    · have hcommand : scriptCommand (.ofBytes [82, 85, 78, 32, 66]) = .run (.ofBytes [66]) := rfl
      rw [hcommand] at hrun
      exact ⟨hfirst, (ScriptCommand.run.inj hrun).symm⟩
    · obtain rfl := List.mem_singleton.mp hlines
      cases hrun
  · rw [hsecond] at h
    cases h
  · cases h

theorem twoScripts_acyclic (hsecond : runReferences second = ∅) (path : CString) :
    ¬ Relation.TransGen (twoScripts second).Runs path path := by
  intro hloop
  obtain ⟨_, hfirst, -⟩ := Relation.TransGen.head'_iff.mp hloop
  obtain ⟨_, -, hlast⟩ := Relation.TransGen.tail'_iff.mp hloop
  obtain ⟨hpath, -⟩ := twoScripts_runs hsecond hfirst
  obtain ⟨-, hpath'⟩ := twoScripts_runs hsecond hlast
  exact absurd (hpath.symm.trans hpath') (by decide)

theorem twoScripts_reads (hsecond : ∀ contents ∈ second, EndsInNewline contents)
    (path : CString) : ∀ contents ∈ twoScripts second path, ReadsCommands contents := by
  unfold twoScripts
  split_ifs
  · rintro contents ⟨⟩
    exact EndsInNewline.readsCommands (by decide)
  · exact fun contents hcontents => (hsecond contents hcontents).readsCommands
  · rintro contents ⟨⟩

theorem twoScripts_ownValid (second : Option Bytes) :
    (twoScripts second).OwnValid (.ofBytes [65]) := by
  refine ⟨_, twoScripts_first second, by simp, ?_⟩
  rintro line (_ | ⟨_, _ | ⟨_, ⟨⟩⟩⟩)
  · nofun
  · nofun

/-- With a `JOURNAL` in `B` both are executed. -/
theorem allOrNothing_twoScripts :
    AllOrNothing (twoScripts (some [74, 79, 85, 82, 78, 65, 76, 10])) ⟨.ofBytes [65]⟩ := by
  have hnothing : runReferences (some [74, 79, 85, 82, 78, 65, 76, 10]) = ∅ := by
    rw [Set.eq_empty_iff_forall_notMem]
    rintro other ⟨line, hline, hrun⟩
    have hlines : line ∈ [CString.ofBytes [74, 79, 85, 82, 78, 65, 76]] := hline
    obtain rfl := List.mem_singleton.mp hlines
    cases hrun
  refine (allOrNothing_iff (finite_range_twoScripts _) (twoScripts_acyclic hnothing)
    fun other _ => twoScripts_reads ?_ other).mpr fun _ other hother => ?_
  · rintro contents ⟨⟩
    decide
  · obtain ⟨_, -, hlast⟩ := Relation.TransGen.tail'_iff.mp hother
    obtain ⟨-, rfl⟩ := twoScripts_runs hnothing hlast
    refine ⟨[.ofBytes [74, 79, 85, 82, 78, 65, 76]], rfl, by simp, ?_⟩
    rintro line (_ | ⟨_, ⟨⟩⟩)
    nofun

/-- Without the file `B` the `JOURNAL` of `A` is executed. -/
theorem not_allOrNothing :
    ¬ AllOrNothing (twoScripts none) ⟨.ofBytes [65]⟩ ∧
      ∀ s : Scheduler, s.pcb 0 = none → ∀ depth ≥ 2,
        s.processRun (twoScripts none).loaded depth 0 0 0 ⟨.ofBytes [65]⟩
          = some (s.addProcess 0 (getNewPcb [generateStatement .journal] 0 0)) := by
  have hnothing : runReferences none = ∅ := rfl
  constructor
  · intro hall
    obtain ⟨success, statements, hloads⟩ := exists_loads
      (wellFounded_of_acyclic (finite_range_twoScripts none) (twoScripts_acyclic hnothing))
      (.ofBytes [65]) fun other _ => twoScripts_reads (fun _ h => by cases h) other
    have hvalid := hloads.allValid hall (twoScripts_ownValid none) (.ofBytes [66]) (.single ?_)
    · obtain ⟨lines, hlines, -⟩ := hvalid
      cases hlines
    · exact ⟨.ofBytes [82, 85, 78, 32, 66], List.mem_cons_self, rfl⟩
  · intro s hfree depth hdepth
    obtain ⟨deeper, rfl⟩ : ∃ deeper, depth = deeper + 2 := ⟨depth - 2, by omega⟩
    show (if s.pcb 0 = none then _ else _) = _
    rw [if_pos hfree]
    rfl

end TwoScripts

end Lissandra
