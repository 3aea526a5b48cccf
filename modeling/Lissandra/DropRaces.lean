import Lissandra.TableThreadSteps

/-! # DROP against SELECT and compaction

`process_drop` goes through the gate of the table, but it holds none of its semaphores while it
frees the blocks and removes the files, and at the end it renames the entry of the table, so that
what still waits and posts finds nothing.  A SELECT that is past its check opens files that are
gone, and the blocks of a compaction that is not through stay marked (`drop_unsafe`).

DROP is safe when it waits for both: for the partitions of a compaction before it takes the bitmap,
and for every file that is still to be opened before it removes the directory (`safe_of_run`).
-/
namespace Lissandra
namespace TableThreads

/-! ## The three together -/

/-- From the `sem_wait` of the bitmap to its `sem_post`. -/
def DropPoint.holdsBitmap : DropPoint → Bool
  | .readBitmap | .free .. | .openDirectory _ | .unlink .. | .writeBitmap _ | .semPost => true
  | _ => false

/-- Nothing but the blocks of the others is marked. -/
def Only (others : Nat → Prop) (bitmap : List Bool) : Prop :=
  ∀ b, Marked bitmap b ↔ others b

/-- The table stands, and the other threads are right about it. -/
structure Present (others : Nat → Prop) (directory : Directory) (partitions : Nat)
    (s : TableThreads) : Prop where
  standing : CompactionPoint.Standing others directory partitions s.shared
  compaction : s.compaction.Ok others directory partitions s.shared.bitmap
  selects : ∀ select ∈ s.selects, select.point.Ok directory

/-- No other thread has a file to open. -/
def Idle (s : TableThreads) : Prop :=
  s.compaction.filesAhead = false ∧ ∀ select ∈ s.selects, select.point.filesAhead = false

/-- What holds while DROP is at a point. -/
def DropPoint.Ok (others : Nat → Prop) (s : TableThreads) : DropPoint → Prop
  | .gate _ | .existTable | .semWait =>
    ∃ directory partitions, Present others directory partitions s
  | .readBitmap => s.compaction.rewriting = false ∧
      ∃ directory partitions, Present others directory partitions s
  | .free freeing copy => s.compaction.rewriting = false ∧
      ∃ directory partitions, Present others directory partitions s ∧
        freeing.Ready directory partitions ∧ Covers others directory freeing.kept [] copy
  | .openDirectory copy => s.compaction.rewriting = false ∧
      (∃ directory partitions, Present others directory partitions s) ∧ Only others copy
  | .unlink names copy => Idle s ∧ (∃ directory : Directory, s.shared.directory = some directory ∧
      (∀ b, directory.Lists b → ¬ others b) ∧ ∀ name ∈ directory.keys, name ∈ names) ∧
        Only others copy
  | .writeBitmap copy => Idle s ∧ s.shared.directory = none ∧ Only others copy
  | .semPost | .rename | .liveStatusWait | .finished => Idle s ∧ s.shared.directory = none ∧
      Only others s.shared.bitmap

/-- The invariant. -/
structure Sound (others : Nat → Prop) (s : TableThreads) : Prop where
  missed : s.missed = false
  bitmapLock : Guarded id (s.shared.value .bitmap) [s.drop.holdsBitmap, s.compaction.holdsBitmap]
  selectLock : s.shared.entry = .listed → Guarded id (s.shared.value .select)
    (s.compaction.holdsSelect :: s.selects.map fun select => select.point.holdsSelect)
  drop : s.drop.Ok others s

section Sound
variable {others : Nat → Prop} {directory : Directory} {partitions : Nat} {s s' : TableThreads}
  {shared' : Shared} {op : Op} {reply : Reply} {more : Bool}

/-- The table stands, or the other threads have no file to open. -/
theorem DropPoint.Ok.cases {point : DropPoint} (h : point.Ok others s) :
    (∃ directory partitions, Present others directory partitions s) ∨ Idle s := by
  cases point with
  | gate gate => exact Or.inl h
  | existTable => exact Or.inl h
  | semWait => exact Or.inl h
  | readBitmap => exact Or.inl h.2
  | free freeing copy =>
    obtain ⟨-, directory, partitions, hpresent, -⟩ := h
    exact Or.inl ⟨directory, partitions, hpresent⟩
  | openDirectory copy => exact Or.inl h.2.1
  | _ => exact Or.inr h.1

/-- As long as there is a directory it has no block of the others. -/
theorem DropPoint.Ok.apart {point : DropPoint} (h : point.Ok others s)
    (hdirectory : s.shared.directory = some directory) (b : Nat) (hlists : directory.Lists b) :
    ¬ others b := by
  have hstands : (∃ directory partitions, Present others directory partitions s) → ¬ others b := by
    rintro ⟨found, partitions, hpresent⟩
    obtain rfl := Option.some.inj (hpresent.standing.present.symm.trans hdirectory)
    exact hpresent.standing.files.apart b hlists
  cases point with
  | gate gate => exact hstands h
  | existTable => exact hstands h
  | semWait => exact hstands h
  | readBitmap => exact hstands h.2
  | free freeing copy =>
    obtain ⟨-, found, partitions, hpresent, -⟩ := h
    exact hstands ⟨found, partitions, hpresent⟩
  | openDirectory copy => exact hstands h.2.1
  | unlink names copy =>
    obtain ⟨-, ⟨found, hfound, hapart, -⟩, -⟩ := h
    obtain rfl := Option.some.inj (hfound.symm.trans hdirectory)
    exact hapart b hlists
  | _ =>
    have hnone := h.2.1
    rw [hdirectory] at hnone
    cases hnone

/-- The archives whose blocks are not freed yet are not A1.tmpc. -/
theorem Freeing.kept_ne_tmpc {freeing : Freeing} (name : ArchiveName) (h : freeing.kept name) :
    name ≠ .tmpc := by
  rintro rfl
  cases freeing with
  | metadata => exact h rfl
  | _ => exact h

theorem Freeing.Ready.same {freeing : Freeing} {directory' : Directory}
    (h : freeing.Ready directory partitions)
    (hsame : ∀ name, name ≠ .tmpc → directory'.archive name = directory.archive name) :
    freeing.Ready directory' partitions := by
  cases freeing with
  | tmp number =>
    refine ⟨h.1, ?_⟩
    rw [hsame _ fun heq => by cases heq]
    exact h.2
  | _ => exact h

/-- A step of another thread. -/
theorem DropPoint.Ok.other {point : DropPoint} (h : point.Ok others s)
    (hpresent : ∀ directory partitions, Present others directory partitions s →
      ∃ directory', Present others directory' partitions s' ∧
        (point.holdsBitmap = true → s.compaction.rewriting = false → ∀ name, name ≠ .tmpc →
          Directory.archive directory' name = directory.archive name))
    (hrewriting : point.holdsBitmap = true → s.compaction.rewriting = false →
      s'.compaction.rewriting = false)
    (hidle : point.removing = true ∨ s.shared.directory = none → Idle s → Idle s' ∧
      s'.shared.directory = s.shared.directory ∧ s'.shared.bitmap = s.shared.bitmap) :
    point.Ok others s' := by
  have hstands : (∃ directory partitions, Present others directory partitions s) →
      ∃ directory partitions, Present others directory partitions s' := by
    rintro ⟨directory, partitions, hold⟩
    obtain ⟨directory', hnew, -⟩ := hpresent directory partitions hold
    exact ⟨directory', partitions, hnew⟩
  cases point with
  | gate gate => exact hstands h
  | existTable => exact hstands h
  | semWait => exact hstands h
  | readBitmap => exact ⟨hrewriting rfl h.1, hstands h.2⟩
  | free freeing copy =>
    obtain ⟨hnot, directory, partitions, hold, hready, hcovers⟩ := h
    obtain ⟨directory', hnew, hsame⟩ := hpresent directory partitions hold
    exact ⟨hrewriting rfl hnot, directory', partitions, hnew, hready.same (hsame rfl hnot),
      hcovers.same Freeing.kept_ne_tmpc (hsame rfl hnot)⟩
  | openDirectory copy => exact ⟨hrewriting rfl h.1, hstands h.2.1, h.2.2⟩
  | unlink names copy =>
    obtain ⟨hold, hleft, honly⟩ := h
    obtain ⟨hnew, hdirectory, -⟩ := hidle (Or.inl rfl) hold
    exact ⟨hnew, hdirectory ▸ hleft, honly⟩
  | writeBitmap copy =>
    obtain ⟨hold, hnone, honly⟩ := h
    obtain ⟨hnew, hdirectory, -⟩ := hidle (Or.inr hnone) hold
    exact ⟨hnew, hdirectory ▸ hnone, honly⟩
  | _ =>
    obtain ⟨hold, hnone, honly⟩ := h
    obtain ⟨hnew, hdirectory, hbitmap⟩ := hidle (Or.inr hnone) hold
    exact ⟨hnew, hdirectory ▸ hnone, hbitmap ▸ honly⟩

/-- The table stands as before, up to the semaphores of the other threads. -/
theorem CompactionPoint.Standing.perform
    (h : CompactionPoint.Standing others directory partitions s.shared)
    (hdone : s.shared.perform more op = .done shared' reply) (hfiles : op.changesFiles = false)
    (hentry : op.changesEntry = false) (hlive : op.uses .liveStatus = false) :
    CompactionPoint.Standing others directory partitions shared' :=
  ⟨(perform_files hdone hfiles).1.trans h.present, h.files,
    (perform_entry hdone hentry).trans h.entry, (perform_value hdone hlive).trans h.liveStatus⟩

/-- A thread without files to open has none after a step that finds nothing. -/
theorem filesAhead_of_gone {before after : Bool} {looks removing gone : Prop}
    (hbefore : before = false) (hnext : after = true → before = true ∨ looks ∧ ¬ gone)
    (hkeeps : looks → ¬ removing) (hgone : removing ∨ gone) : after = false := by
  rw [← Bool.not_eq_true]
  intro hafter
  rcases hnext hafter with hahead | ⟨hlooks, hthere⟩
  · rw [hbefore] at hahead
    cases hahead
  · rcases hgone with hremoving | hnone
    · exact hkeeps hlooks hremoving
    · exact hthere hnone

/-! ### A step of SELECT -/

theorem Sound.select {i : Nat} {select : Select} (h : Sound others s)
    (hselect : s.selects[i]? = some select) (hop : select.point.op = some op)
    (hkeeps : s.Keeps (.select i)) :
    s.shared.perform false op ≠ .missing ∧
      (s.shared.perform false op = .done shared' reply → Sound others { s with
        shared := shared'
        selects := s.selects.set i
          { select with point := select.point.next select.key reply } }) := by
  have hmem : select ∈ s.selects := List.mem_of_getElem? hselect
  obtain ⟨hfiles, hentry, hbitmap, hlive⟩ := SelectPoint.op_frame hop
  constructor
  · rcases h.drop.cases with ⟨directory, partitions, hpresent⟩ | hidle
    · exact (@SelectPoint.Ok.perform others directory partitions s.shared s.shared select.point op
        .done select.key hpresent.standing.present hpresent.standing.files
        (hpresent.selects select hmem) hop).1
    · exact SelectPoint.not_missing_of_idle hop (hidle.2 select hmem)
  · intro hdone
    obtain ⟨hdirectory, hsameBitmap⟩ := perform_files hdone hfiles
    have hsameEntry := perform_entry hdone hentry
    refine ⟨h.missed, ?_, fun hlisted => ?_, ?_⟩
    · rw [perform_value hdone hbitmap]
      exact h.bitmapLock
    · have hlisted' : s.shared.entry = .listed := hsameEntry.symm.trans hlisted
      have hlock := @SelectPoint.locks s.shared shared' select.point op reply select.key hop hdone
        hlisted'
      have hholder : (s.compaction.holdsSelect ::
          s.selects.map fun select => select.point.holdsSelect)[i + 1]?
            = some select.point.holdsSelect := by
        rw [List.getElem?_cons_succ, List.getElem?_map, hselect]
        rfl
      have hnext := guarded_perform (h.selectLock hlisted') hholder hdone hlock
      rw [List.set_cons_succ] at hnext
      show Guarded id _ (s.compaction.holdsSelect :: (s.selects.set i _).map _)
      rw [List.map_set]
      exact hnext
    · refine h.drop.other (fun directory partitions hpresent => ?_) (fun _ hrewriting => hrewriting)
        fun hgone hidle => ?_
      · refine ⟨directory, ⟨hpresent.standing.perform hdone hfiles hentry hlive, ?_,
          fun other hother => ?_⟩, fun _ _ _ _ => rfl⟩
        · rw [hsameBitmap]
          exact hpresent.compaction
        · rcases List.mem_or_eq_of_mem_set hother with hold | rfl
          · exact hpresent.selects other hold
          · exact (SelectPoint.Ok.perform hpresent.standing.present hpresent.standing.files
              (hpresent.selects select hmem) hop).2 hdone
      · refine ⟨⟨hidle.1, fun other hother => ?_⟩, hdirectory, hsameBitmap⟩
        rcases List.mem_or_eq_of_mem_set hother with hold | rfl
        · exact hidle.2 other hold
        · exact filesAhead_of_gone (hidle.2 select hmem) (SelectPoint.filesAhead_next hop hdone)
            (fun hpoint => Bool.eq_false_iff.mp (hkeeps select hselect hpoint)) hgone

/-! ### A step of compaction -/

/-- What SELECT has found is not removed while SELECT has the semaphore of the table. -/
theorem SelectPoint.Ok.evolves {point : SelectPoint} {compaction : CompactionPoint}
    {directory' : Directory} (h : point.Ok directory)
    (hevolves : compaction.Evolves directory directory')
    (hlock : compaction.removes = true → point.holdsSelect = false) : point.Ok directory' := by
  have hremoves : point.holdsSelect = true → compaction.removes = false := by
    intro hholds
    rw [← Bool.not_eq_true]
    intro hremoves
    rw [hlock hremoves] at hholds
    cases hholds
  cases point with
  | readTmpc => exact hevolves.kept (hremoves rfl) _ h
  | readTmp number => exact hevolves.kept (hremoves rfl) _ h
  | readPartition number => exact hevolves.partition number h
  | _ => trivial

theorem Present.compact (h : Sound others s) (hpresent : Present others directory partitions s)
    (hop : s.compaction.op = some op)
    (hdone : s.shared.perform more op = .done shared' reply) :
    ∃ directory', Present others directory' partitions
        { s with shared := shared', compaction := s.compaction.next reply } ∧
      s.compaction.Evolves directory directory' := by
  obtain ⟨hentry, hlive⟩ := hpresent.compaction.op_frame hop
  obtain ⟨directory', hdirectory', hfiles', hok', hevolves⟩ :=
    (hpresent.compaction.advances hpresent.standing op more hop).2 shared' reply hdone
  refine ⟨directory', ⟨⟨hdirectory', hfiles', ?_, ?_⟩, hok', fun select hselect => ?_⟩, hevolves⟩
  · exact (perform_entry hdone hentry).trans hpresent.standing.entry
  · exact (perform_value hdone hlive).trans hpresent.standing.liveStatus
  · refine (hpresent.selects select hselect).evolves hevolves fun hremoves => ?_
    exact (h.selectLock hpresent.standing.entry).excludes
      (CompactionPoint.holdsSelect_of_removes hremoves) _ (List.mem_map_of_mem hselect)

theorem Sound.compaction (h : Sound others s) (hop : s.compaction.op = some op)
    (hkeeps : s.Keeps (.compaction more)) :
    s.shared.perform more op ≠ .missing ∧
      (s.shared.perform more op = .done shared' reply → Sound others { s with
        shared := shared'
        compaction := s.compaction.next reply }) := by
  constructor
  · rcases h.drop.cases with ⟨directory, partitions, hpresent⟩ | hidle
    · exact (hpresent.compaction.advances hpresent.standing op more hop).1
    · exact perform_ne_missing (CompactionPoint.op_of_idle hop hidle.1).2
  · intro hdone
    have hbitmapLock := @guarded_perform s.shared shared' more op reply .bitmap
      [s.drop.holdsBitmap, s.compaction.holdsBitmap] 1 _ (s.compaction.next reply).holdsBitmap
      h.bitmapLock rfl hdone (CompactionPoint.locks_bitmap hop)
    refine ⟨h.missed, hbitmapLock, fun hlisted => ?_, ?_⟩
    · have hlisted' := perform_listed hdone hlisted
      exact @guarded_perform _ _ _ _ _ _ _ 0 _ _ (h.selectLock hlisted') rfl hdone
        (CompactionPoint.locks_select hop hdone hlisted')
    · -- while DROP has the bitmap compaction does not rewrite, nor does it begin to
      have hnot : s.drop.holdsBitmap = true → s.compaction.holdsBitmap = false := fun hholds =>
        h.bitmapLock.excludes hholds _ (List.mem_singleton.mpr rfl)
      refine h.drop.other (fun directory partitions hold => ?_) (fun hholds hrewriting => ?_)
        fun hgone hold => ?_
      · obtain ⟨directory', hnew, hevolves⟩ := hold.compact h hop hdone
        exact ⟨directory', hnew, fun hholds => hevolves.same (hnot hholds)⟩
      · exact CompactionPoint.rewriting_next hrewriting (hnot hholds)
      · obtain ⟨hdirectory, hbitmap⟩ :=
          perform_files hdone (CompactionPoint.op_of_idle hop hold.1).1
        have hidle := filesAhead_of_gone hold.1 (CompactionPoint.filesAhead_next hop hdone)
          (fun hlooks => Bool.eq_false_iff.mp (hkeeps hlooks)) hgone
        exact ⟨⟨hidle, hold.2⟩, hdirectory, hbitmap⟩

/-! ### A step of DROP -/

theorem DropPoint.locks {point : DropPoint} (hop : point.op = some op) :
    op.Locks .bitmap s.shared point.holdsBitmap (point.next reply).holdsBitmap := by
  cases point with
  | finished => cases hop
  | unlink names copy => cases names <;> obtain rfl := Option.some.inj hop <;> rfl
  | gate gate =>
    obtain rfl := Option.some.inj hop
    have hnext : ((DropPoint.gate gate).next reply).holdsBitmap = false := by
      rw [DropPoint.next]
      cases gate.next reply <;> rfl
    cases gate <;> exact hnext
  | semWait =>
    obtain rfl := Option.some.inj hop
    exact ⟨rfl, rfl⟩
  | semPost =>
    obtain rfl := Option.some.inj hop
    exact ⟨rfl, rfl⟩
  | free freeing copy =>
    obtain rfl := Option.some.inj hop
    have hnext : ((DropPoint.free freeing copy).next reply).holdsBitmap = true := by
      rw [DropPoint.next]
      rcases freeing.next true copy reply with ⟨_ | freeing', copy'⟩ <;> rfl
    cases freeing <;> exact hnext
  | _ =>
    obtain rfl := Option.some.inj hop
    cases reply with
    | found found => cases found <;> rfl
    | _ => rfl

/-- The table stands for the other threads after a step of DROP. -/
theorem Present.perform (h : Present others directory partitions s)
    (hdone : s.shared.perform more op = .done shared' reply) (hfiles : op.changesFiles = false)
    (hentry : op.changesEntry = false) (hlive : op.uses .liveStatus = false) (point : DropPoint) :
    Present others directory partitions { s with shared := shared', drop := point } := by
  refine ⟨h.standing.perform hdone hfiles hentry hlive, ?_, h.selects⟩
  show s.compaction.Ok others directory partitions shared'.bitmap
  rw [(perform_files hdone hfiles).2]
  exact h.compaction

theorem Present.goto (h : Present others directory partitions s) (point : DropPoint) :
    Present others directory partitions { s with drop := point } :=
  ⟨h.standing, h.compaction, h.selects⟩

/-- What a step of DROP finds, and where it goes on. -/
def DropPoint.Steps (others : Nat → Prop) (s : TableThreads) (point : DropPoint) : Prop :=
  ∀ op, point.op = some op → s.shared.perform false op ≠ .missing ∧
    ∀ shared' reply, s.shared.perform false op = .done shared' reply → ∀ drop,
      (point.next reply).Ok others { s with shared := shared', drop }

/-- A step that leaves the table as it stands. -/
theorem DropPoint.Steps.of_quiet {point : DropPoint}
    (hpresent : Present others directory partitions s) (hop : point.op = some op)
    (hopens : op.opens = false) (hfiles : op.changesFiles = false)
    (hentry : op.changesEntry = false) (hlive : op.uses .liveStatus = false)
    (hnext : ∀ reply (s' : TableThreads), s'.compaction = s.compaction →
      Present others directory partitions s' → (point.next reply).Ok others s') :
    point.Steps others s := by
  intro op' hop'
  obtain rfl := Option.some.inj (hop.symm.trans hop')
  exact ⟨perform_ne_missing hopens, fun shared' reply hdone drop =>
    hnext reply _ rfl (hpresent.perform hdone hfiles hentry hlive drop)⟩

/-- A step with the one reply that it can have. -/
theorem DropPoint.Steps.of_reply {point : DropPoint} (hop : point.op = some op)
    (hperform : s.shared.perform false op = .done shared' reply)
    (hnext : ∀ drop, (point.next reply).Ok others { s with shared := shared', drop }) :
    point.Steps others s := by
  intro op' hop'
  obtain rfl := Option.some.inj (hop.symm.trans hop')
  rw [hperform]
  refine ⟨fun hmissing => (by cases hmissing), fun shared'' reply' hdone drop => ?_⟩
  obtain ⟨rfl, rfl⟩ := Outcome.done.inj hdone
  exact hnext drop

/-- A step when the directory is gone. -/
theorem DropPoint.Steps.of_gone {point : DropPoint} (hop : point.op = some op)
    (hopens : op.opens = false) (hfiles : op.changesFiles = false)
    (hnext : ∀ reply (s' : TableThreads), s'.shared.directory = s.shared.directory →
      s'.shared.bitmap = s.shared.bitmap → (Idle s → Idle s') → (point.next reply).Ok others s') :
    point.Steps others s := by
  intro op' hop'
  obtain rfl := Option.some.inj (hop.symm.trans hop')
  refine ⟨perform_ne_missing hopens, fun shared' reply hdone drop => ?_⟩
  obtain ⟨hdirectory, hbitmap⟩ := perform_files hdone hfiles
  exact hnext reply _ hdirectory hbitmap id

theorem DropPoint.steps_free {freeing : Freeing} {copy : List Bool}
    (h : (DropPoint.free freeing copy).Ok others s) (hlock : s.compaction.holdsBitmap = false) :
    (DropPoint.free freeing copy).Steps others s := by
  obtain ⟨hrewriting, directory, partitions, hpresent, hready, hcovers⟩ := h
  obtain ⟨hnumbered, -⟩ := hpresent.compaction.settled hrewriting hlock
  obtain ⟨reply, hperform, hfreed⟩ := @perform_freeing others directory partitions copy s.shared
    true freeing hpresent.standing.present hpresent.standing.files hnumbered hready hcovers
  refine DropPoint.Steps.of_reply rfl (hperform false) fun drop => ?_
  rw [DropPoint.next]
  revert hfreed
  rcases freeing.next true copy reply with ⟨_ | freeing', copy'⟩
  · intro hcovers'
    refine ⟨hrewriting, ⟨directory, partitions, hpresent.goto drop⟩,
      hcovers'.marked_iff fun name hname => ?_⟩
    cases name with
    | tmp number => cases hname
    | _ => exact hname
  · rintro ⟨hready', hcovers'⟩
    exact ⟨hrewriting, directory, partitions, hpresent.goto drop, hready', hcovers'⟩

/-- A file is removed, and the directory when none is left. -/
theorem DropPoint.steps_unlink {names : List FileName} {copy : List Bool}
    (h : (DropPoint.unlink names copy).Ok others s) :
    (DropPoint.unlink names copy).Steps others s := by
  obtain ⟨hidle, ⟨directory, hdirectory, hapart, hleft⟩, honly⟩ := h
  cases names with
  | nil =>
    have hempty : directory.keys = [] :=
      List.eq_nil_iff_forall_not_mem.mpr fun name hname => by cases hleft name hname
    have hperform : s.shared.perform false .removeDirectory
        = .done { s.shared with directory := none } .done := by
      rw [Shared.perform, hdirectory, Option.filter_some, hempty]
      rfl
    exact DropPoint.Steps.of_reply rfl hperform fun drop => ⟨hidle, rfl, honly⟩
  | cons name names =>
    refine DropPoint.Steps.of_reply rfl (perform_remove hdirectory) fun drop =>
      ⟨hidle, ⟨_, rfl, fun b hlists => hapart b hlists.of_erase, fun other hother => ?_⟩, honly⟩
    obtain ⟨hne, hmem⟩ := AList.mem_erase.mp (AList.mem_keys.mpr hother)
    rcases List.mem_cons.mp (hleft other (AList.mem_keys.mp hmem)) with heq | hrest
    · exact absurd heq hne
    · exact hrest

theorem DropPoint.Ok.steps {point : DropPoint} (h : point.Ok others s)
    (hlock : point.holdsBitmap = true → s.compaction.holdsBitmap = false)
    (hwait : point = .semWait → s.compaction.rewriting = false)
    (hopen : ∀ copy, point = .openDirectory copy → Idle s) : point.Steps others s := by
  cases point with
  | gate gate =>
    obtain ⟨directory, partitions, hpresent⟩ := h
    obtain ⟨hfiles, hentry, hopens, -, -, hlive⟩ := gate.op_frame
    refine DropPoint.Steps.of_quiet hpresent rfl hopens hfiles hentry hlive
      fun reply s' _ hnew => ?_
    rw [DropPoint.next]
    cases gate.next reply with
    | none => exact ⟨directory, partitions, hnew⟩
    | some gate' => exact ⟨directory, partitions, hnew⟩
  | existTable =>
    obtain ⟨directory, partitions, hpresent⟩ := h
    have hperform : s.shared.perform false .existTable = .done s.shared (.found true) := by
      rw [Shared.perform, hpresent.standing.present]
      rfl
    exact DropPoint.Steps.of_reply rfl hperform fun drop =>
      ⟨directory, partitions, hpresent.goto drop⟩
  | semWait =>
    obtain ⟨directory, partitions, hpresent⟩ := h
    refine DropPoint.Steps.of_quiet hpresent rfl rfl rfl rfl rfl fun reply s' hsame hnew => ?_
    exact ⟨hsame ▸ hwait rfl, directory, partitions, hnew⟩
  | readBitmap =>
    obtain ⟨hrewriting, directory, partitions, hpresent⟩ := h
    obtain ⟨hnumbered, hcovers⟩ := hpresent.compaction.settled hrewriting (hlock rfl)
    exact DropPoint.Steps.of_reply rfl rfl fun drop =>
      ⟨hrewriting, directory, partitions, hpresent.goto drop, trivial, hcovers⟩
  | free freeing copy => exact DropPoint.steps_free h (hlock rfl)
  | openDirectory copy =>
    obtain ⟨hrewriting, ⟨directory, partitions, hpresent⟩, honly⟩ := h
    have hperform : s.shared.perform false .openDirectory
        = .done s.shared (.names directory.keys) := by
      rw [Shared.perform, hpresent.standing.present]
      rfl
    exact DropPoint.Steps.of_reply rfl hperform fun drop =>
      ⟨hopen copy rfl, ⟨directory, hpresent.standing.present, hpresent.standing.files.apart,
        fun name hname => hname⟩, honly⟩
  | unlink names copy => exact DropPoint.steps_unlink h
  | writeBitmap copy =>
    obtain ⟨hidle, hnone, honly⟩ := h
    exact DropPoint.Steps.of_reply rfl rfl fun drop => ⟨hidle, hnone, honly⟩
  | semPost =>
    obtain ⟨hidle, hnone, honly⟩ := h
    exact DropPoint.Steps.of_gone rfl rfl rfl fun reply s' hdirectory hbitmap hnew =>
      ⟨hnew hidle, hdirectory.trans hnone, hbitmap ▸ honly⟩
  | rename =>
    obtain ⟨hidle, hnone, honly⟩ := h
    refine DropPoint.Steps.of_gone rfl rfl rfl fun reply s' hdirectory hbitmap hnew => ?_
    cases reply with
    | found found =>
      cases found <;> exact ⟨hnew hidle, hdirectory.trans hnone, hbitmap ▸ honly⟩
    | _ => exact ⟨hnew hidle, hdirectory.trans hnone, hbitmap ▸ honly⟩
  | liveStatusWait =>
    obtain ⟨hidle, hnone, honly⟩ := h
    exact DropPoint.Steps.of_gone rfl rfl rfl fun reply s' hdirectory hbitmap hnew =>
      ⟨hnew hidle, hdirectory.trans hnone, hbitmap ▸ honly⟩
  | finished =>
    intro op hop
    cases hop

theorem DropPoint.uses_select {point : DropPoint} (hop : point.op = some op) :
    op.uses .select = false := by
  cases point with
  | finished => cases hop
  | unlink names copy => cases names <;> obtain rfl := Option.some.inj hop <;> rfl
  | gate gate =>
    obtain rfl := Option.some.inj hop
    exact gate.op_frame.2.2.2.2.1
  | free freeing copy =>
    obtain rfl := Option.some.inj hop
    cases freeing <;> rfl
  | _ =>
    obtain rfl := Option.some.inj hop
    rfl

theorem Sound.dropStep (h : Sound others s) (hop : s.drop.op = some op)
    (hkeeps : s.Keeps .drop) :
    s.shared.perform false op ≠ .missing ∧
      (s.shared.perform false op = .done shared' reply → Sound others { s with
        shared := shared'
        drop := s.drop.next reply }) := by
  have hlock : s.drop.holdsBitmap = true → s.compaction.holdsBitmap = false := fun hholds =>
    h.bitmapLock.excludes hholds _ (List.mem_singleton.mpr rfl)
  have hwait : s.drop = .semWait → s.compaction.rewriting = false := by
    intro heq
    rw [Keeps, heq] at hkeeps
    exact hkeeps
  have hopen : ∀ copy, s.drop = .openDirectory copy → Idle s := by
    intro copy heq
    rw [Keeps, heq] at hkeeps
    exact hkeeps
  obtain ⟨hfound, hnext⟩ := h.drop.steps hlock hwait hopen op hop
  refine ⟨hfound, fun hdone => ⟨h.missed, ?_, fun hlisted => ?_, hnext shared' reply hdone _⟩⟩
  · exact @guarded_perform s.shared shared' false op reply .bitmap
      [s.drop.holdsBitmap, s.compaction.holdsBitmap] 0 _ (s.drop.next reply).holdsBitmap
      h.bitmapLock rfl hdone (DropPoint.locks hop)
  · show Guarded id (shared'.value .select) _
    rw [perform_value hdone (DropPoint.uses_select hop)]
    exact h.selectLock (perform_listed hdone hlisted)

/-! ### Every run -/

theorem Sound.begin (h : Sound others s) (key : UInt16) : Sound others { s with
    selects := s.selects ++ [⟨key, .gate .processSelect .find⟩] } := by
  refine ⟨h.missed, h.bitmapLock, fun hlisted => ?_, ?_⟩
  · have hstart := @Guarded.start Bool id _ _ false (h.selectLock hlisted) rfl
    show Guarded id _ (s.compaction.holdsSelect :: (s.selects ++ [_]).map _)
    rw [List.map_append]
    exact hstart
  · refine h.drop.other (fun directory partitions hold => ?_) (fun _ hrewriting => hrewriting)
      fun _ hold => ?_
    · refine ⟨directory, ⟨hold.standing, hold.compaction, fun select hselect => ?_⟩,
        fun _ _ _ _ => rfl⟩
      rcases List.mem_append.mp hselect with hmem | hnew
      · exact hold.selects select hmem
      · obtain rfl := List.mem_singleton.mp hnew
        trivial
    · refine ⟨⟨hold.1, fun select hselect => ?_⟩, rfl, rfl⟩
      rcases List.mem_append.mp hselect with hmem | hnew
      · exact hold.2 select hmem
      · obtain rfl := List.mem_singleton.mp hnew
        rfl

/-- What a thread's operation leaves is sound when it is not a missing file. -/
theorem Sound.resume {goto : Reply → TableThreads → TableThreads} {outcome : Outcome}
    (hmissing : outcome ≠ .missing)
    (hdone : ∀ shared' reply, outcome = .done shared' reply →
      Sound others (goto reply { s with shared := shared' }))
    (hresume : s.resume goto outcome = some s') : Sound others s' := by
  cases outcome with
  | blocked => cases hresume
  | missing => exact absurd rfl hmissing
  | done shared' reply =>
    obtain rfl := Option.some.inj hresume
    exact hdone shared' reply rfl

theorem Sound.step {action : Action} (h : Sound others s) (hstep : s.step action = some s')
    (hkeeps : s.Keeps action) : Sound others s' := by
  unfold TableThreads.step at hstep
  rw [if_neg (Bool.eq_false_iff.mp h.missed)] at hstep
  cases action with
  | begin key =>
    obtain rfl := Option.some.inj hstep
    exact h.begin key
  | drop =>
    obtain ⟨op, hop, hresume⟩ := Option.bind_eq_some_iff.mp hstep
    exact Sound.resume (@Sound.dropStep others s s.shared op .done h hop hkeeps).1
      (fun _ _ hdone => (h.dropStep hop hkeeps).2 hdone) hresume
  | compaction more =>
    obtain ⟨op, hop, hresume⟩ := Option.bind_eq_some_iff.mp hstep
    exact Sound.resume (@Sound.compaction others s s.shared op .done more h hop hkeeps).1
      (fun _ _ hdone => (h.compaction hop hkeeps).2 hdone) hresume
  | select i =>
    obtain ⟨select, hselect, hthread⟩ := Option.bind_eq_some_iff.mp hstep
    obtain ⟨op, hop, hresume⟩ := Option.bind_eq_some_iff.mp hthread
    exact Sound.resume (@Sound.select others s s.shared op .done i select h hselect hop hkeeps).1
      (fun _ _ hdone => (h.select hselect hop hkeeps).2 hdone) hresume

theorem Starts.sound (h : Starts s) : Sound (Others s) s := by
  obtain ⟨directory, partitions, hdirectory, hwhole⟩ := h.directory
  have hfiles : Files (Others s) directory partitions :=
    ⟨hwhole.positive, hwhole.metadata, hwhole.partition, fun b hlists hothers =>
      hothers.2 directory hdirectory hlists⟩
  have hsettled : Settled (Others s) directory s.shared.bitmap := by
    refine ⟨hwhole.tmp, fun b hothers => hothers.1, fun b hmarked => ?_⟩
    by_cases hlists : directory.Lists b
    · exact Or.inr (Or.inr hlists)
    · refine Or.inl ⟨hmarked, fun other hother => ?_⟩
      obtain rfl := Option.some.inj (hdirectory.symm.trans hother)
      exact hlists
  refine ⟨h.missed, ?_, fun _ => ?_, ?_⟩
  · rcases h.compaction with hcompaction | hcompaction <;>
      rw [h.bitmap, h.drop, hcompaction] <;> rfl
  · rcases h.compaction with hcompaction | hcompaction <;>
      rw [h.select, h.selects, hcompaction] <;> rfl
  · rw [h.drop]
    refine ⟨directory, partitions, ⟨hdirectory, hfiles, h.entry, h.liveStatus⟩, ?_, ?_⟩
    · rcases h.compaction with hcompaction | hcompaction <;> rw [hcompaction] <;> exact hsettled
    · rw [h.selects]
      intro select hselect
      cases hselect

theorem Sound.safe {start : TableThreads} (h : Sound (Others start) s) : Safe start s := by
  refine ⟨h.missed, fun directory hdirectory => h.drop.apart hdirectory, fun hfinished _ _ => ?_⟩
  have hdrop := h.drop
  rw [hfinished] at hdrop
  exact hdrop.2

/-- In every run in which DROP waits for compaction and SELECT, it is safe. -/
theorem safe_of_run {start : TableThreads} (hstart : Starts start) (hrun : KeptRun start s) :
    Safe start s :=
  (hrun.invariant hstart.sound fun _ _ _ h hstep hkeeps => h.step hstep hkeeps).safe

end Sound

/-! ## Three runs -/

/-- One partition with block 2, and a temporary archive with block 1. -/
def smallDirectory : Directory :=
  (((∅ : Directory).insert (FileName.archive (.tmp 1)) ([1] : List Nat)).insert
    (FileName.archive (.partition 1)) ([2] : List Nat)).insert FileName.metadata (1 : Nat)

/-- Block 4 is another table's. -/
def smallTable : TableThreads where
  shared := ⟨some smallDirectory, [true, true, false, true], .listed, fun _ => 1⟩
  drop := .gate .find
  compaction := .threadWait
  selects := []
  missed := false

theorem whole_smallDirectory : smallDirectory.Whole 1 := by
  have hpartition : smallDirectory.archive (.partition 1) = some [2] := by decide +kernel
  have htmp : smallDirectory.archive (.tmp 1) = some [1] := by decide +kernel
  have hmem : ∀ name blocks, smallDirectory.archive name = some blocks →
      name = .partition 1 ∨ name = .tmp 1 := by
    intro name blocks hblocks
    have hkeys : FileName.archive name ∈ smallDirectory.keys :=
      AList.lookup_isSome.mp (Option.isSome_of_eq_some hblocks)
    have hthree : FileName.archive name ∈
        [FileName.metadata, .archive (.partition 1), .archive (.tmp 1)] := hkeys
    simpa using hthree
  refine ⟨Nat.one_pos, by decide +kernel, fun number => ⟨fun hsome => ?_, fun hbound => ?_⟩,
    fun number hsome => ?_⟩
  · obtain ⟨blocks, hblocks⟩ := Option.isSome_iff_exists.mp hsome
    rcases hmem _ _ hblocks with heq | heq
    · obtain rfl := ArchiveName.partition.inj heq
      exact ⟨le_rfl, le_rfl⟩
    · cases heq
  · obtain rfl : number = 1 := by omega
    rw [hpartition]
    rfl
  · obtain ⟨blocks, hblocks⟩ := Option.isSome_iff_exists.mp hsome
    rcases hmem _ _ hblocks with heq | heq
    · cases heq
    · obtain rfl := ArchiveName.tmp.inj heq
      refine ⟨le_rfl, fun earlier hlower hupper => ?_⟩
      obtain rfl : earlier = 1 := by omega
      exact hsome

theorem starts_smallTable : Starts smallTable :=
  ⟨⟨smallDirectory, 1, rfl, whole_smallDirectory⟩, rfl, rfl, rfl, rfl, rfl, Or.inl rfl, rfl, rfl⟩

/-- A SELECT has found the table and DROP is through the gate; then there is a compaction, SELECT
reads the partition, and DROP goes on when it has. -/
def waitingActions : List Action :=
  [.begin 7] ++ List.replicate 4 (.select 0) ++ List.replicate 3 .drop ++
    List.replicate 39 (.compaction false) ++ List.replicate 22 (.select 0) ++
    List.replicate 14 .drop ++ List.replicate 2 (.compaction false)

theorem safe_waiting : ∃ s, KeptRun smallTable s ∧ s.drop = .finished ∧
    s.compaction = .finished ∧ s.selects = [⟨7, .finished⟩] ∧ Safe smallTable s := by
  have hend : (runSteps step (fun s action _ => s.Keeps action) smallTable waitingActions).map
      (fun s => (s.drop, s.compaction, s.selects))
      = some (.finished, .finished, [⟨7, .finished⟩]) := by decide +kernel
  obtain ⟨s, hsteps, hend⟩ := Option.map_eq_some_iff.mp hend
  obtain ⟨hdrop, hrest⟩ := Prod.mk.inj hend
  obtain ⟨hcompaction, hselects⟩ := Prod.mk.inj hrest
  have hrun : KeptRun smallTable s := run_of_runSteps hsteps
  exact ⟨s, hrun, hdrop, hcompaction, hselects, safe_of_run starts_smallTable hrun⟩

/-- SELECT has `select_mutex` and stands before its next gate, and there DROP comes, which is
through as soon as nobody is blocked. -/
def selectingActions : List Action :=
  [.begin 7] ++ List.replicate 6 (.select 0) ++ List.replicate 20 .drop ++
    List.replicate 9 (.select 0)

/-- DROP is through the gate before the compaction blocks the table, and reads the old partition
before the new one, with block 1, is in the directory. -/
def rewritingActions : List Action :=
  List.replicate 3 .drop ++ List.replicate 35 (.compaction false) ++ List.replicate 6 .drop ++
    List.replicate 4 (.compaction false) ++ List.replicate 8 .drop ++
    List.replicate 2 (.compaction false)

/-- SELECT opens metadata that is gone; and a DROP and a compaction end with a block that is marked
and that no table has. -/
theorem drop_unsafe :
    (∃ s, Run step (fun _ _ _ => True) smallTable s ∧ s.missed = true) ∧
      ∃ s, Run step (fun _ _ _ => True) smallTable s ∧ s.drop = .finished ∧
        s.compaction = .finished ∧ s.selects = [] ∧ s.shared.directory = none ∧
        Marked s.shared.bitmap 1 ∧ ¬ Others smallTable 1 := by
  constructor
  · have hend : (runSteps step (fun _ _ _ => True) smallTable selectingActions).map
        TableThreads.missed = some true := by decide +kernel
    obtain ⟨s, hsteps, hmissed⟩ := Option.map_eq_some_iff.mp hend
    exact ⟨s, run_of_runSteps hsteps, hmissed⟩
  · have hend : (runSteps step (fun _ _ _ => True) smallTable rewritingActions).map
        (fun s => (s.drop, s.compaction, s.selects, s.shared.directory.isNone, s.shared.bitmap))
        = some (.finished, .finished, [], true, [true, false, false, true]) := by decide +kernel
    obtain ⟨s, hsteps, hend⟩ := Option.map_eq_some_iff.mp hend
    simp only [Prod.mk.injEq] at hend
    obtain ⟨hdrop, hcompaction, hselects, hdirectory, hbitmap⟩ := hend
    refine ⟨s, run_of_runSteps hsteps, hdrop, hcompaction, hselects,
      Option.isNone_iff_eq_none.mp hdirectory, ⟨0, rfl, by rw [hbitmap]; rfl⟩, fun hothers => ?_⟩
    have htmp : smallDirectory.archive (.tmp 1) = some [1] := by decide +kernel
    exact hothers.2 smallDirectory rfl ⟨.tmp 1, [1], fun heq => (by cases heq), htmp,
      List.mem_singleton.mpr rfl⟩

end TableThreads

end Lissandra
