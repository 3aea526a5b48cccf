import Lissandra.Semaphore
import Lissandra.TableBlocks

/-! # The steps of SELECT and of compaction

What each operation leaves as it was, how the semaphores of the table and of the bitmap go from
point to point, and that a thread finds what it opens as long as the table stands
(`SelectPoint.Ok.perform`, `CompactionPoint.Ok.advances`).
-/
namespace Lissandra
namespace TableThreads

/-! ## What an operation can do -/

/-- It changes the directory or the bitmap. -/
def Op.changesFiles : Op → Bool
  | .createFsArchive .. | .remove _ | .removeDirectory | .writeBitmap _ => true
  | _ => false

def Op.changesEntry : Op → Bool
  | .rename | .destroyEntry => true
  | _ => false

/-- It waits for the semaphore or posts it. -/
def Op.uses (semaphore : Semaphore) : Op → Bool
  | .semWait other | .semPost other | .findPost other => other = semaphore
  | _ => false

/-- It opens a file of the table. -/
def Op.opens : Op → Bool
  | .readTableMetadata | .readRenamedMetadata | .readFsArchive _ | .createFsArchive .. => true
  | _ => false

/-- It takes the lock or gives it back, through an entry that is listed if it posts by name. -/
def Op.Locks (semaphore : Semaphore) (shared : Shared) (before after : Bool) (op : Op) : Prop :=
  if op = .semWait semaphore then before = false ∧ after = true
  else if op = .semPost semaphore then before = true ∧ after = false
  else if op = .findPost semaphore then shared.entry = .listed ∧ before = true ∧ after = false
  else after = before

section Operations
variable {shared shared' : Shared} {more : Bool} {op : Op} {reply : Reply} {semaphore : Semaphore}

/-- An operation changes nothing, or one kind of thing. -/
theorem perform_cases (h : shared.perform more op = .done shared' reply) :
    shared' = shared ∨
      (∃ semaphore value, op.uses semaphore = true ∧ shared' = shared.setValue semaphore value) ∨
      (op.changesEntry = true ∧ ∃ entry, entry ≠ .listed ∧ shared' = { shared with entry }) ∨
      op.changesFiles = true ∧ ∃ directory bitmap, shared' = { shared with directory, bitmap } := by
  cases op with
  | semWait semaphore =>
    rw [Shared.perform] at h
    split at h
    · obtain ⟨rfl, -⟩ := Outcome.done.inj h
      exact Or.inr (Or.inl ⟨semaphore, _, decide_eq_true rfl, rfl⟩)
    · cases h
  | semPost semaphore =>
    obtain ⟨rfl, -⟩ := Outcome.done.inj h
    exact Or.inr (Or.inl ⟨semaphore, _, decide_eq_true rfl, rfl⟩)
  | findPost semaphore =>
    rw [Shared.perform] at h
    split at h
    · obtain ⟨rfl, -⟩ := Outcome.done.inj h
      exact Or.inr (Or.inl ⟨semaphore, _, decide_eq_true rfl, rfl⟩)
    · obtain ⟨rfl, -⟩ := Outcome.done.inj h
      exact Or.inl rfl
  | rename =>
    rw [Shared.perform] at h
    split at h
    · obtain ⟨rfl, -⟩ := Outcome.done.inj h
      exact Or.inr (Or.inr (Or.inl ⟨rfl, .renamed, fun heq => (by cases heq), rfl⟩))
    · obtain ⟨rfl, -⟩ := Outcome.done.inj h
      exact Or.inl rfl
  | destroyEntry =>
    obtain ⟨rfl, -⟩ := Outcome.done.inj h
    exact Or.inr (Or.inr (Or.inl ⟨rfl, .destroyed, fun heq => (by cases heq), rfl⟩))
  | readTableMetadata =>
    rw [Shared.perform] at h
    split at h
    · obtain ⟨rfl, -⟩ := Outcome.done.inj h
      exact Or.inl rfl
    · cases h
  | readRenamedMetadata => cases h
  | readFsArchive name =>
    rw [Shared.perform] at h
    split at h
    · obtain ⟨rfl, -⟩ := Outcome.done.inj h
      exact Or.inl rfl
    · cases h
  | createFsArchive name blocks =>
    rw [Shared.perform] at h
    split at h
    · obtain ⟨rfl, -⟩ := Outcome.done.inj h
      exact Or.inr (Or.inr (Or.inr ⟨rfl, _, shared.bitmap, rfl⟩))
    · cases h
  | remove name =>
    obtain ⟨rfl, -⟩ := Outcome.done.inj h
    exact Or.inr (Or.inr (Or.inr ⟨rfl, _, shared.bitmap, rfl⟩))
  | removeDirectory =>
    obtain ⟨rfl, -⟩ := Outcome.done.inj h
    exact Or.inr (Or.inr (Or.inr ⟨rfl, _, shared.bitmap, rfl⟩))
  | writeBitmap bitmap =>
    obtain ⟨rfl, -⟩ := Outcome.done.inj h
    exact Or.inr (Or.inr (Or.inr ⟨rfl, shared.directory, bitmap, rfl⟩))
  | _ =>
    obtain ⟨rfl, -⟩ := Outcome.done.inj h
    exact Or.inl rfl

theorem perform_files (h : shared.perform more op = .done shared' reply)
    (hop : op.changesFiles = false) :
    shared'.directory = shared.directory ∧ shared'.bitmap = shared.bitmap := by
  rcases perform_cases h with rfl | ⟨semaphore, value, -, rfl⟩ | ⟨-, entry, -, rfl⟩ | ⟨hchanges, -⟩
  · exact ⟨rfl, rfl⟩
  · exact ⟨rfl, rfl⟩
  · exact ⟨rfl, rfl⟩
  · rw [hop] at hchanges
    cases hchanges

theorem perform_entry (h : shared.perform more op = .done shared' reply)
    (hop : op.changesEntry = false) : shared'.entry = shared.entry := by
  rcases perform_cases h with
    rfl | ⟨semaphore, value, -, rfl⟩ | ⟨hchanges, -⟩ | ⟨-, directory, bitmap, rfl⟩
  · rfl
  · rfl
  · rw [hop] at hchanges
    cases hchanges
  · rfl

/-- Nobody lists the table again. -/
theorem perform_listed (h : shared.perform more op = .done shared' reply)
    (hlisted : shared'.entry = .listed) : shared.entry = .listed := by
  rcases perform_cases h with
    rfl | ⟨semaphore, value, -, rfl⟩ | ⟨-, entry, hentry, rfl⟩ | ⟨-, directory, bitmap, rfl⟩
  · exact hlisted
  · exact hlisted
  · exact absurd hlisted hentry
  · exact hlisted

theorem perform_value (h : shared.perform more op = .done shared' reply)
    (hop : op.uses semaphore = false) : shared'.value semaphore = shared.value semaphore := by
  rcases perform_cases h with
    rfl | ⟨other, value, huses, rfl⟩ | ⟨-, entry, -, rfl⟩ | ⟨-, directory, bitmap, rfl⟩
  · rfl
  · refine Function.update_of_ne (fun heq => ?_) _ _
    rw [heq, huses] at hop
    cases hop
  · rfl
  · rfl

theorem perform_ne_missing (hop : op.opens = false) : shared.perform more op ≠ .missing := by
  intro h
  cases op with
  | semWait semaphore =>
    rw [Shared.perform] at h
    split at h
    · cases h
    · cases h
  | findPost semaphore =>
    rw [Shared.perform] at h
    split at h
    · cases h
    · cases h
  | rename =>
    rw [Shared.perform] at h
    split at h
    · cases h
    · cases h
  | readTableMetadata => cases hop
  | readRenamedMetadata => cases hop
  | readFsArchive name => cases hop
  | createFsArchive name blocks => cases hop
  | _ => cases h

/-- What is looked for in a table that is gone is not found. -/
theorem perform_gone (hdirectory : shared.directory = none)
    (hlooks : op = .existTable ∨ ∃ name, op = .existArchive name)
    (h : shared.perform more op = .done shared' reply) : reply = .found false := by
  rcases hlooks with rfl | ⟨name, rfl⟩
  · rw [Shared.perform, hdirectory] at h
    exact (Outcome.done.inj h).2.symm
  · rw [Shared.perform, hdirectory] at h
    exact (Outcome.done.inj h).2.symm

/-- The lock is kept sound by a thread that takes it and gives it back. -/
theorem guarded_perform {holders : List Bool} {i : Nat} {before after : Bool}
    (h : Guarded id (shared.value semaphore) holders) (hi : holders[i]? = some before)
    (hdone : shared.perform more op = .done shared' reply)
    (hlock : op.Locks semaphore shared before after) :
    Guarded id (shared'.value semaphore) (holders.set i after) := by
  unfold Op.Locks at hlock
  split at hlock
  · rename_i heq
    subst heq
    rw [Shared.perform] at hdone
    split at hdone
    · rename_i hpositive
      obtain ⟨rfl, -⟩ := Outcome.done.inj hdone
      have hvalue : (shared.setValue semaphore (shared.value semaphore - 1)).value semaphore
          = shared.value semaphore - 1 := Function.update_self _ _ _
      rw [hvalue]
      exact h.wait hi hpositive hlock.1 hlock.2
    · cases hdone
  · rename_i hwait
    have hposted : (shared.setValue semaphore (shared.value semaphore + 1)).value semaphore
        = shared.value semaphore + 1 := Function.update_self _ _ _
    split at hlock
    · rename_i heq
      subst heq
      obtain ⟨rfl, -⟩ := Outcome.done.inj hdone
      rw [hposted]
      exact h.post hi hlock.1 hlock.2
    · rename_i hpost
      split at hlock
      · rename_i heq
        subst heq
        rw [Shared.perform, if_pos hlock.1] at hdone
        obtain ⟨rfl, -⟩ := Outcome.done.inj hdone
        rw [hposted]
        exact h.post hi hlock.2.1 hlock.2.2
      · rename_i hfindPost
        have hvalue : shared'.value semaphore = shared.value semaphore := by
          apply perform_value hdone
          cases op with
          | semWait other => exact decide_eq_false fun heq => hwait (congrArg _ heq)
          | semPost other => exact decide_eq_false fun heq => hpost (congrArg _ heq)
          | findPost other => exact decide_eq_false fun heq => hfindPost (congrArg _ heq)
          | _ => rfl
        rw [hvalue]
        exact h.move hi hlock

end Operations

/-! ## SELECT -/

/-- Between `select_wait` and `select_post`. -/
def SelectPoint.holdsSelect : SelectPoint → Bool
  | .gate stage _ => stage ≠ .processSelect
  | .existTable | .find | .wait | .finished => false
  | _ => true

/-- What SELECT has found and opens next is there. -/
def SelectPoint.Ok (directory : Directory) : SelectPoint → Prop
  | .readTmpc => (directory.archive .tmpc).isSome
  | .readTmp number => (directory.archive (.tmp number)).isSome
  | .readPartition number => (directory.archive (.partition number)).isSome
  | _ => True

section Select
variable {others : Nat → Prop} {directory : Directory} {partitions : Nat}
  {shared shared' : Shared} {point : SelectPoint} {op : Op} {reply : Reply} {key : UInt16}

theorem Gate.op_frame (gate : Gate) : gate.op.changesFiles = false ∧
    gate.op.changesEntry = false ∧ gate.op.opens = false ∧
    gate.op.uses .bitmap = false ∧ gate.op.uses .select = false ∧
    gate.op.uses .liveStatus = false := by
  cases gate <;> exact ⟨rfl, rfl, rfl, rfl, rfl, rfl⟩

theorem SelectPoint.op_frame (hop : point.op = some op) : op.changesFiles = false ∧
    op.changesEntry = false ∧ op.uses .bitmap = false ∧ op.uses .liveStatus = false := by
  cases point with
  | finished => cases hop
  | gate stage gate =>
    obtain rfl := Option.some.inj hop
    obtain ⟨hfiles, hentry, -, hbitmap, -, hlive⟩ := gate.op_frame
    exact ⟨hfiles, hentry, hbitmap, hlive⟩
  | _ =>
    obtain rfl := Option.some.inj hop
    exact ⟨rfl, rfl, rfl, rfl⟩

/-- After a gate. -/
theorem SelectPoint.next_gate (stage : SelectStage) (gate : Gate) :
    (SelectPoint.gate stage gate).next key reply = stage.start ∨
      ∃ gate', (SelectPoint.gate stage gate).next key reply = .gate stage gate' := by
  rw [SelectPoint.next]
  cases gate.next reply with
  | none => exact Or.inl rfl
  | some gate' => exact Or.inr ⟨gate', rfl⟩

theorem SelectPoint.locks (hop : point.op = some op)
    (hdone : shared.perform false op = .done shared' reply) (hlisted : shared.entry = .listed) :
    op.Locks .select shared point.holdsSelect (point.next key reply).holdsSelect := by
  cases point with
  | finished => cases hop
  | gate stage gate =>
    obtain rfl := Option.some.inj hop
    have hsame : ((SelectPoint.gate stage gate).next key reply).holdsSelect
        = (SelectPoint.gate stage gate).holdsSelect := by
      rcases @SelectPoint.next_gate reply key stage gate with heq | ⟨gate', heq⟩
      · rw [heq]
        cases stage <;> rfl
      · rw [heq]
        rfl
    cases gate <;> exact hsame
  | find =>
    obtain rfl := Option.some.inj hop
    rw [Shared.perform, hlisted] at hdone
    obtain ⟨-, rfl⟩ := Outcome.done.inj hdone
    rfl
  | wait =>
    obtain rfl := Option.some.inj hop
    exact ⟨rfl, rfl⟩
  | selectPost =>
    obtain rfl := Option.some.inj hop
    exact ⟨hlisted, rfl, rfl⟩
  | existTable =>
    obtain rfl := Option.some.inj hop
    obtain ⟨-, rfl⟩ := Outcome.done.inj hdone
    cases shared.directory <;> rfl
  | _ =>
    obtain rfl := Option.some.inj hop
    cases reply with
    | found found => cases found <;> rfl
    | _ => rfl

/-- SELECT has files to open when it had before, or when it has found the table. -/
theorem SelectPoint.filesAhead_next (hop : point.op = some op)
    (hdone : shared.perform false op = .done shared' reply)
    (hnext : (point.next key reply).filesAhead = true) :
    point.filesAhead = true ∨ point = .existTable ∧ shared.directory ≠ none := by
  cases point with
  | finished => cases hop
  | gate stage gate =>
    obtain rfl := Option.some.inj hop
    rcases @SelectPoint.next_gate reply key stage gate with heq | ⟨gate', heq⟩
    · rw [heq] at hnext
      cases stage <;> first | exact Or.inl rfl | cases hnext
    · rw [heq] at hnext
      exact Or.inl hnext
  | existTable =>
    obtain rfl := Option.some.inj hop
    refine Or.inr ⟨rfl, fun hnone => ?_⟩
    obtain rfl := perform_gone hnone (Or.inl rfl) hdone
    cases hnext
  | dumpWait =>
    obtain rfl := Option.some.inj hop
    cases hnext
  | searchMemtable =>
    obtain rfl := Option.some.inj hop
    cases hnext
  | dumpPost =>
    obtain rfl := Option.some.inj hop
    cases hnext
  | selectPost =>
    obtain rfl := Option.some.inj hop
    cases hnext
  | _ =>
    obtain rfl := Option.some.inj hop
    exact Or.inl rfl

theorem SelectPoint.not_missing_of_idle (hop : point.op = some op)
    (hidle : point.filesAhead = false) : shared.perform false op ≠ .missing := by
  apply perform_ne_missing
  cases point with
  | finished => cases hop
  | gate stage gate =>
    obtain rfl := Option.some.inj hop
    exact gate.op_frame.2.2.1
  | _ =>
    obtain rfl := Option.some.inj hop
    first | rfl | cases hidle

/-- What SELECT opens in a table that is there is found, and so is what it opens next. -/
theorem SelectPoint.Ok.perform (hdirectory : shared.directory = some directory)
    (hfiles : Files others directory partitions) (hok : point.Ok directory)
    (hop : point.op = some op) : shared.perform false op ≠ .missing ∧
      (shared.perform false op = .done shared' reply → (point.next key reply).Ok directory) := by
  have hread : ∀ name, (directory.archive name).isSome →
      shared.perform false (.readFsArchive name) ≠ .missing := by
    intro name hsome hmissing
    obtain ⟨blocks, hblocks⟩ := Option.isSome_iff_exists.mp hsome
    rw [perform_readFsArchive hdirectory hblocks] at hmissing
    cases hmissing
  cases point with
  | finished => cases hop
  | gate stage gate =>
    obtain rfl := Option.some.inj hop
    refine ⟨perform_ne_missing gate.op_frame.2.2.1, fun _ => ?_⟩
    rcases @SelectPoint.next_gate reply key stage gate with heq | ⟨gate', heq⟩
    · rw [heq]
      cases stage <;> trivial
    · rw [heq]
      trivial
  | existTmpc =>
    obtain rfl := Option.some.inj hop
    rw [perform_existArchive hdirectory]
    refine ⟨fun h => (by cases h), fun h => ?_⟩
    obtain ⟨-, rfl⟩ := Outcome.done.inj h
    cases hsome : (directory.archive .tmpc).isSome with
    | true => exact hsome
    | false => trivial
  | existTmp number =>
    obtain rfl := Option.some.inj hop
    rw [perform_existArchive hdirectory]
    refine ⟨fun h => (by cases h), fun h => ?_⟩
    obtain ⟨-, rfl⟩ := Outcome.done.inj h
    cases hsome : (directory.archive (.tmp number)).isSome with
    | true => exact hsome
    | false => trivial
  | readMetadata =>
    obtain rfl := Option.some.inj hop
    rw [perform_readTableMetadata hdirectory hfiles.metadata]
    refine ⟨fun h => (by cases h), fun h => ?_⟩
    obtain ⟨-, rfl⟩ := Outcome.done.inj h
    have hlt := Nat.mod_lt key.toNat hfiles.positive
    exact (hfiles.partition _).mpr ⟨by omega, by omega⟩
  | readTmpc =>
    obtain rfl := Option.some.inj hop
    exact ⟨hread _ hok, fun _ => trivial⟩
  | readTmp number =>
    obtain rfl := Option.some.inj hop
    exact ⟨hread _ hok, fun _ => trivial⟩
  | readPartition number =>
    obtain rfl := Option.some.inj hop
    exact ⟨hread _ hok, fun _ => trivial⟩
  | _ =>
    obtain rfl := Option.some.inj hop
    refine ⟨perform_ne_missing rfl, fun _ => ?_⟩
    cases reply with
    | found found => cases found <;> trivial
    | _ => trivial

end Select

/-! ## The thread of compaction -/

/-- Between a `sem_wait` of the bitmap and its `sem_post`. -/
def Taking.holdsBitmap : Taking → Bool
  | .readBitmap | .writeBitmap _ | .semPost => true
  | _ => false

namespace CompactionPoint

def holdsBitmap : CompactionPoint → Bool
  | .readBitmap _ | .free .. | .existDestroy .. | .destroyTmp .. | .writeBitmap .. | .semPost _ =>
    true
  | .take _ _ _ taking => taking.holdsBitmap
  | _ => false

/-- Between `select_wait` and `select_post`. -/
def holdsSelect : CompactionPoint → Bool
  | .threadWait | .findWithThread | .readTime _ | .getLiveStatus | .find | .wait | .sleep
  | .destroyEntry | .finished => false
  | _ => true

/-- It removes a file that SELECT may have found. -/
def removes : CompactionPoint → Bool
  | .destroyTmp .. | .removeTmpc _ => true
  | _ => false

/-- What the thread has read is what is there, and the bitmaps are right. -/
def Ok (others : Nat → Prop) (directory : Directory) (partitions : Nat) (bitmap : List Bool) :
    CompactionPoint → Prop
  | .readTime named => named = true ∧ Settled others directory bitmap
  | .existTmpc count | .existTmp count | .listTmp count _ _ | .createTmpc count _ =>
    count = partitions ∧ Settled others directory bitmap
  | .readTmpc count => count = partitions ∧ Settled others directory bitmap ∧
      (directory.archive .tmpc).isSome
  | .readListed count number _ => count = partitions ∧ Settled others directory bitmap ∧
      (directory.archive (.tmp number)).isSome
  | .readPartition work i => work.partitions = partitions ∧ Settled others directory bitmap ∧
      i < partitions
  | .findBlocked work | .waitBlocked work | .semWait work | .readBitmap work =>
    work.partitions = partitions ∧ Settled others directory bitmap
  | .free work freeing copy => work.partitions = partitions ∧ Settled others directory bitmap ∧
      freeing.Ready directory partitions ∧ Covers others directory freeing.kept [] copy
  | .existDestroy work number copy | .destroyTmp work number copy =>
    work.partitions = partitions ∧ Numbered directory number ∧
      Covers others directory (fun _ => False) [] copy
  | .writeBitmap work copy => work.partitions = partitions ∧ Rewriting others directory copy 0 []
  | .semPost work | .removeTmpc work =>
    work.partitions = partitions ∧ Rewriting others directory bitmap 0 []
  | .take count i taken (.writeBitmap copy) =>
    count = partitions ∧ i < partitions ∧ Rewriting others directory copy i taken
  | .take count i taken _ | .createPartition count i taken =>
    count = partitions ∧ i < partitions ∧ Rewriting others directory bitmap i taken
  | .destroyEntry => False
  | _ => Settled others directory bitmap

/-- How the directory changes in a step. -/
structure Evolves (point : CompactionPoint) (directory directory' : Directory) : Prop where
  partition : ∀ number, (directory.archive (.partition number)).isSome →
    (directory'.archive (.partition number)).isSome
  kept : point.removes = false → ∀ name, (directory.archive name).isSome →
    (directory'.archive name).isSome
  same : point.holdsBitmap = false → point.rewriting = false → ∀ name, name ≠ .tmpc →
    directory'.archive name = directory.archive name

/-- The table while DROP has not removed anything. -/
structure Standing (others : Nat → Prop) (directory : Directory) (partitions : Nat)
    (shared : Shared) : Prop where
  present : shared.directory = some directory
  files : Files others directory partitions
  entry : shared.entry = .listed
  liveStatus : shared.value .liveStatus = 1

/-- A step from the point finds what it opens, and the thread is right about what it leaves. -/
def Advances (others : Nat → Prop) (directory : Directory) (partitions : Nat) (shared : Shared)
    (point : CompactionPoint) : Prop :=
  ∀ op more, point.op = some op → shared.perform more op ≠ .missing ∧
    ∀ shared' reply, shared.perform more op = .done shared' reply →
      ∃ directory', shared'.directory = some directory' ∧ Files others directory' partitions ∧
        (point.next reply).Ok others directory' partitions shared'.bitmap ∧
        point.Evolves directory directory'

section Steps
variable {others : Nat → Prop} {directory : Directory} {partitions : Nat} {bitmap : List Bool}
  {shared shared' : Shared} {point : CompactionPoint} {op : Op} {reply : Reply} {more : Bool}

theorem Evolves.refl (point : CompactionPoint) (directory : Directory) :
    point.Evolves directory directory := ⟨fun _ h => h, fun _ _ h => h, fun _ _ _ _ => rfl⟩

/-- A step with the one reply that it can have. -/
theorem Advances.of_reply (h : Standing others directory partitions shared)
    (hop : point.op = some op) (hperform : ∀ more, shared.perform more op = .done shared reply)
    (hnext : (point.next reply).Ok others directory partitions shared.bitmap) :
    point.Advances others directory partitions shared := by
  intro op' more hop'
  obtain rfl := Option.some.inj (hop.symm.trans hop')
  rw [hperform more]
  refine ⟨fun hmissing => (by cases hmissing), fun shared' reply' hdone => ?_⟩
  obtain ⟨rfl, rfl⟩ := Outcome.done.inj hdone
  exact ⟨directory, h.present, h.files, hnext, Evolves.refl _ _⟩

/-- A step that leaves the files alone, with any reply. -/
theorem Advances.of_quiet (h : Standing others directory partitions shared)
    (hop : point.op = some op) (hopens : op.opens = false) (hfiles : op.changesFiles = false)
    (hnext : ∀ reply, (point.next reply).Ok others directory partitions shared.bitmap) :
    point.Advances others directory partitions shared := by
  intro op' more hop'
  obtain rfl := Option.some.inj (hop.symm.trans hop')
  refine ⟨perform_ne_missing hopens, fun shared' reply hdone => ?_⟩
  obtain ⟨hsame, hbitmap⟩ := perform_files hdone hfiles
  exact ⟨directory, hsame.trans h.present, h.files, hbitmap ▸ hnext reply, Evolves.refl _ _⟩

/-- A step that changes them. -/
theorem Advances.of_change {directory' : Directory} (hop : point.op = some op)
    (hperform : ∀ more, shared.perform more op = .done shared' reply)
    (hdirectory : shared'.directory = some directory')
    (hfiles : Files others directory' partitions)
    (hnext : (point.next reply).Ok others directory' partitions shared'.bitmap)
    (hevolves : point.Evolves directory directory') :
    point.Advances others directory partitions shared := by
  intro op' more hop'
  obtain rfl := Option.some.inj (hop.symm.trans hop')
  rw [hperform more]
  refine ⟨fun hmissing => (by cases hmissing), fun shared'' reply' hdone => ?_⟩
  obtain ⟨rfl, rfl⟩ := Outcome.done.inj hdone
  exact ⟨directory', hdirectory, hfiles, hnext, hevolves⟩

/-- An archive that is there is read. -/
theorem Advances.of_read {name : ArchiveName} (h : Standing others directory partitions shared)
    (hop : point.op = some (.readFsArchive name)) (hsome : (directory.archive name).isSome)
    (hnext : ∀ blocks, (point.next (.blocks blocks)).Ok others directory partitions shared.bitmap) :
    point.Advances others directory partitions shared := by
  obtain ⟨blocks, hblocks⟩ := Option.isSome_iff_exists.mp hsome
  exact Advances.of_reply h hop (fun _ => perform_readFsArchive h.present hblocks) (hnext blocks)

theorem ok_startCompaction {work : Compacting} (hpartitions : work.partitions = partitions)
    (h : Settled others directory bitmap) :
    (startCompaction work).Ok others directory partitions bitmap := by
  unfold startCompaction
  split
  · rename_i hpositive
    exact ⟨hpartitions, h, hpartitions ▸ hpositive⟩
  · exact ⟨hpartitions, h⟩

theorem ok_createNewPartitions {i : Nat} (h : Rewriting others directory bitmap i []) :
    (createNewPartitions partitions i).Ok others directory partitions bitmap := by
  unfold createNewPartitions
  split
  · rename_i hlt
    exact ⟨rfl, hlt, h⟩
  · exact h.settled

theorem ok_freed {work : Compacting} {copy : List Bool} (hpartitions : work.partitions = partitions)
    (hnumbered : Numbered directory 1)
    (hcovers : Covers others directory (keptAfter work.tmpDestroyFlag) [] copy) :
    (freed work copy).Ok others directory partitions bitmap := by
  unfold freed
  split
  · rename_i hflag
    refine ⟨hpartitions, hnumbered, hcovers.mono fun name _ hname hblocks => ⟨?_, hblocks⟩⟩
    cases name with
    | tmp number => exact Bool.false_ne_true (hname.symm.trans hflag)
    | _ => exact hname
  · refine ⟨hpartitions, hnumbered, hcovers.mono fun name _ hname hblocks => ⟨?_, hblocks⟩,
      fun b hb => by cases hb⟩
    cases name with
    | tmp number => exact trivial
    | partition number => exact absurd hname id
    | tmpc => exact hname

/-! ### Until the blocks are freed -/

theorem advances_createTmpc {count : Nat} {blocks : List Nat}
    (h : Standing others directory partitions shared)
    (hok : (createTmpc count blocks).Ok others directory partitions shared.bitmap) :
    (createTmpc count blocks).Advances others directory partitions shared := by
  obtain ⟨hcount, hsettled⟩ := hok
  have hsame : ∀ name, name ≠ .tmpc →
      Directory.archive (directory.insert (.archive .tmpc) blocks) name
        = directory.archive name := fun name hname => archive_insert_ne hname
  refine Advances.of_change rfl (fun _ => perform_createFsArchive h.present) rfl
    (h.files.same metadata_insert hsame) (ok_startCompaction hcount (hsettled.same hsame))
    ⟨?_, ?_, fun _ _ => hsame⟩
  · intro number hnumber
    rw [hsame _ fun heq => by cases heq]
    exact hnumber
  · intro _ name hname
    by_cases heq : name = .tmpc
    · rw [heq, archive_insert_self]
      rfl
    · rw [hsame name heq]
      exact hname

theorem advances_free {work : Compacting} {freeing : Freeing} {copy : List Bool}
    (h : Standing others directory partitions shared)
    (hok : (free work freeing copy).Ok others directory partitions shared.bitmap) :
    (free work freeing copy).Advances others directory partitions shared := by
  obtain ⟨hpartitions, hsettled, hready, hcovers⟩ := hok
  obtain ⟨reply, hperform, hfreed⟩ := @perform_freeing others directory partitions copy shared
    work.tmpDestroyFlag freeing h.present h.files hsettled.1 hready hcovers
  refine Advances.of_reply h rfl hperform ?_
  rw [next]
  revert hfreed
  rcases freeing.next work.tmpDestroyFlag copy reply with ⟨_ | freeing', copy'⟩
  · intro hcovers'
    exact ok_freed hpartitions hsettled.1 hcovers'
  · rintro ⟨hready', hcovers'⟩
    exact ⟨hpartitions, hsettled, hready', hcovers'⟩

/-! ### The bitmap and the new partitions -/

theorem advances_existDestroy {work : Compacting} {number : Nat} {copy : List Bool}
    (h : Standing others directory partitions shared)
    (hok : (existDestroy work number copy).Ok others directory partitions shared.bitmap) :
    (existDestroy work number copy).Advances others directory partitions shared := by
  refine Advances.of_reply h rfl (fun _ => perform_existArchive h.present) ?_
  cases hsome : (directory.archive (.tmp number)).isSome with
  | true => exact hok
  | false =>
    obtain ⟨hpartitions, hnumbered, hcovers⟩ := hok
    -- the numbers go on from this one, so there is none left
    have hnone : ∀ later, ¬ (directory.archive (.tmp later)).isSome := by
      intro later hlater
      obtain ⟨hfirst, hearlier⟩ := hnumbered later hlater
      have hthis := hearlier number le_rfl hfirst
      rw [hsome] at hthis
      cases hthis
    exact ⟨hpartitions, fun later hlater => absurd hlater (hnone later),
      hcovers.mono fun name _ hname _ => hname.elim, fun b hb => by cases hb⟩

theorem advances_destroyTmp {work : Compacting} {number : Nat} {copy : List Bool}
    (h : Standing others directory partitions shared)
    (hok : (destroyTmp work number copy).Ok others directory partitions shared.bitmap) :
    (destroyTmp work number copy).Advances others directory partitions shared := by
  obtain ⟨hpartitions, hnumbered, hcovers⟩ := hok
  refine Advances.of_change rfl (fun _ => perform_remove h.present) rfl (h.files.eraseTmp number)
    ⟨hpartitions, hnumbered.eraseTmp, hcovers.mono fun name _ hname _ => hname.elim⟩
    ⟨fun other hother => ?_, fun hremoves => (by cases hremoves), fun hholds => (by cases hholds)⟩
  rw [archive_erase_ne fun heq => by cases heq]
  exact hother

theorem advances_writeBitmap {work : Compacting} {copy : List Bool}
    (h : Standing others directory partitions shared)
    (hok : (writeBitmap work copy).Ok others directory partitions shared.bitmap) :
    (writeBitmap work copy).Advances others directory partitions shared :=
  Advances.of_change rfl (fun _ => rfl) h.present h.files hok (Evolves.refl _ _)

theorem advances_removeTmpc {work : Compacting}
    (h : Standing others directory partitions shared)
    (hok : (removeTmpc work).Ok others directory partitions shared.bitmap) :
    (removeTmpc work).Advances others directory partitions shared := by
  obtain ⟨hpartitions, hrewriting⟩ := hok
  have hsame : ∀ name, name ≠ .tmpc →
      Directory.archive (directory.erase (.archive .tmpc)) name
        = directory.archive name := fun name hname => archive_erase_ne hname
  refine Advances.of_change rfl (fun _ => perform_remove h.present) rfl
    (h.files.same metadata_erase hsame) ?_
    ⟨fun number hnumber => ?_, fun hremoves => (by cases hremoves), fun _ _ => hsame⟩
  · rw [next, hpartitions]
    exact ok_createNewPartitions (hrewriting.same hsame)
  · rw [hsame _ fun heq => by cases heq]
    exact hnumber

theorem advances_take {count i : Nat} {taken : List Nat} {taking : Taking}
    (h : Standing others directory partitions shared)
    (hok : (take count i taken taking).Ok others directory partitions shared.bitmap) :
    (take count i taken taking).Advances others directory partitions shared := by
  cases taking with
  | semWait => exact Advances.of_quiet h rfl rfl rfl fun _ => hok
  | readBitmap =>
    obtain ⟨hcount, hi, hrewriting⟩ := hok
    obtain ⟨hfree, hcovers⟩ := hrewriting.covers.take
    refine Advances.of_reply h rfl (fun _ => rfl) ⟨hcount, hi, hrewriting.numbered, hcovers, ?_⟩
    intro b hb
    rcases List.mem_append.mp hb with hold | hnew
    · exact hrewriting.apart b hold
    · obtain rfl := List.mem_singleton.mp hnew
      exact hfree
  | writeBitmap copy =>
    exact Advances.of_change rfl (fun _ => rfl) h.present h.files hok (Evolves.refl _ _)
  | semPost => exact Advances.of_quiet h rfl rfl rfl fun _ => hok
  | moreBlocks =>
    refine Advances.of_quiet h rfl rfl rfl fun reply => ?_
    cases reply with
    | found found => cases found <;> exact hok
    | _ => exact hok

theorem advances_createPartition {count i : Nat} {taken : List Nat}
    (h : Standing others directory partitions shared)
    (hok : (createPartition count i taken).Ok others directory partitions shared.bitmap) :
    (createPartition count i taken).Advances others directory partitions shared := by
  obtain ⟨hcount, hi, hrewriting⟩ := hok
  refine Advances.of_change rfl (fun _ => perform_createFsArchive h.present) rfl
    (h.files.insertPartition hi hrewriting.apart) ?_
    ⟨fun number hnumber => ?_, fun _ name hname => ?_, fun _ hrewrites => (by cases hrewrites)⟩
  · rw [next, hcount]
    exact ok_createNewPartitions hrewriting.insertPartition
  · by_cases heq : number = i + 1
    · rw [heq, archive_insert_self]
      rfl
    · rw [archive_insert_ne fun hname => heq (ArchiveName.partition.inj hname)]
      exact hnumber
  · by_cases heq : name = .partition (i + 1)
    · rw [heq, archive_insert_self]
      rfl
    · rw [archive_insert_ne heq]
      exact hname

/-- Every step of the thread while the table stands. -/
theorem Ok.advances (h : Standing others directory partitions shared)
    (hok : point.Ok others directory partitions shared.bitmap) :
    point.Advances others directory partitions shared := by
  have hfound : ∀ more, shared.perform more .find = .done shared (.found true) := by
    intro more
    rw [Shared.perform, h.entry]
    rfl
  cases point with
  | threadWait => exact Advances.of_quiet h rfl rfl rfl fun _ => hok
  | findWithThread => exact Advances.of_reply h rfl hfound ⟨rfl, hok⟩
  | readTime named =>
    obtain ⟨rfl, hsettled⟩ := hok
    exact Advances.of_reply h rfl
      (fun _ => perform_readTableMetadata h.present h.files.metadata) hsettled
  | getLiveStatus =>
    have hlive : ∀ more, shared.perform more .getLiveStatus = .done shared (.found true) := by
      intro more
      rw [Shared.perform, h.entry, h.liveStatus]
      rfl
    exact Advances.of_reply h rfl hlive hok
  | find => exact Advances.of_reply h rfl hfound hok
  | wait => exact Advances.of_quiet h rfl rfl rfl fun _ => hok
  | existTable =>
    refine Advances.of_quiet h rfl rfl rfl fun reply => ?_
    cases reply with
    | found found => cases found <;> exact hok
    | _ => exact hok
  | readMetadata =>
    exact Advances.of_reply h rfl
      (fun _ => perform_readTableMetadata h.present h.files.metadata) ⟨rfl, hok⟩
  | existTmpc count =>
    refine Advances.of_reply h rfl (fun _ => perform_existArchive h.present) ?_
    cases hsome : (directory.archive .tmpc).isSome with
    | true => exact ⟨hok.1, hok.2, hsome⟩
    | false => exact hok
  | readTmpc count =>
    obtain ⟨hcount, hsettled, hsome⟩ := hok
    exact Advances.of_read h rfl hsome fun _ => ok_startCompaction hcount hsettled
  | existTmp count =>
    refine Advances.of_quiet h rfl rfl rfl fun reply => ?_
    cases reply with
    | found found => cases found with
      | true => exact hok
      | false => exact hok.2
    | _ => exact hok.2
  | listTmp count number blocks =>
    refine Advances.of_reply h rfl (fun _ => perform_existArchive h.present) ?_
    cases hsome : (directory.archive (.tmp number)).isSome with
    | true => exact ⟨hok.1, hok.2, hsome⟩
    | false => exact hok
  | readListed count number blocks =>
    obtain ⟨hcount, hsettled, hsome⟩ := hok
    exact Advances.of_read h rfl hsome fun _ => ⟨hcount, hsettled⟩
  | createTmpc count blocks => exact advances_createTmpc h hok
  | readPartition work i =>
    obtain ⟨hpartitions, hsettled, hi⟩ := hok
    refine Advances.of_read h rfl ((h.files.partition _).mpr ⟨by omega, by omega⟩) fun _ => ?_
    rw [next]
    split
    · rename_i hlt
      exact ⟨hpartitions, hsettled, hpartitions ▸ hlt⟩
    · exact ⟨hpartitions, hsettled⟩
  | findBlocked work => exact Advances.of_reply h rfl hfound hok
  | waitBlocked work => exact Advances.of_quiet h rfl rfl rfl fun _ => hok
  | semWait work => exact Advances.of_quiet h rfl rfl rfl fun _ => hok
  | readBitmap work =>
    exact Advances.of_reply h rfl (fun _ => rfl) ⟨hok.1, hok.2, trivial, hok.2.2⟩
  | free work freeing copy => exact advances_free h hok
  | existDestroy work number copy => exact advances_existDestroy h hok
  | destroyTmp work number copy => exact advances_destroyTmp h hok
  | writeBitmap work copy => exact advances_writeBitmap h hok
  | semPost work => exact Advances.of_quiet h rfl rfl rfl fun _ => hok
  | removeTmpc work => exact advances_removeTmpc h hok
  | take count i taken taking => exact advances_take h hok
  | createPartition count i taken => exact advances_createPartition h hok
  | postBlocked => exact Advances.of_quiet h rfl rfl rfl fun _ => hok
  | selectPost => exact Advances.of_quiet h rfl rfl rfl fun _ => hok
  | sleep => exact Advances.of_quiet h rfl rfl rfl fun _ => hok
  | destroyEntry => exact absurd hok id
  | finished =>
    intro op more hop
    cases hop

/-! ### Locks -/

/-- It begins with the semaphore of the table, and changes nothing yet. -/
theorem startCompaction_frame (work : Compacting) : (startCompaction work).holdsSelect = true ∧
    (startCompaction work).holdsBitmap = false ∧ (startCompaction work).rewriting = false := by
  unfold startCompaction
  split <;> exact ⟨rfl, rfl, rfl⟩

theorem holds_createNewPartitions (count i : Nat) :
    (createNewPartitions count i).holdsSelect = true ∧
      (createNewPartitions count i).holdsBitmap = false := by
  unfold createNewPartitions
  split <;> exact ⟨rfl, rfl⟩

theorem holds_free (work : Compacting) (freeing : Freeing) (copy : List Bool) :
    ((free work freeing copy).next reply).holdsSelect = true ∧
      ((free work freeing copy).next reply).holdsBitmap = true := by
  rw [next]
  rcases freeing.next work.tmpDestroyFlag copy reply with ⟨_ | freeing', copy'⟩
  · show (freed work copy').holdsSelect = true ∧ (freed work copy').holdsBitmap = true
    unfold freed
    split <;> exact ⟨rfl, rfl⟩
  · exact ⟨rfl, rfl⟩

theorem next_readPartition_frame (work : Compacting) (i : Nat) :
    ((readPartition work i).next reply).holdsSelect = true ∧
      ((readPartition work i).next reply).holdsBitmap = false ∧
      ((readPartition work i).next reply).rewriting = false := by
  rw [next]
  split <;> exact ⟨rfl, rfl, rfl⟩

theorem locks_select (hop : point.op = some op)
    (hdone : shared.perform more op = .done shared' reply) (hlisted : shared.entry = .listed) :
    op.Locks .select shared point.holdsSelect (point.next reply).holdsSelect := by
  cases point with
  | finished => cases hop
  | readTime named => cases named <;> obtain rfl := Option.some.inj hop <;> rfl
  | take count i taken taking =>
    cases taking with
    | _ =>
      obtain rfl := Option.some.inj hop
      cases reply with
      | found found => cases found <;> rfl
      | _ => rfl
  | find =>
    obtain rfl := Option.some.inj hop
    rw [Shared.perform, hlisted] at hdone
    obtain ⟨-, rfl⟩ := Outcome.done.inj hdone
    rfl
  | wait =>
    obtain rfl := Option.some.inj hop
    exact ⟨rfl, rfl⟩
  | selectPost =>
    obtain rfl := Option.some.inj hop
    exact ⟨hlisted, rfl, rfl⟩
  | readTmpc count =>
    obtain rfl := Option.some.inj hop
    exact (startCompaction_frame _).1
  | createTmpc count blocks =>
    obtain rfl := Option.some.inj hop
    exact (startCompaction_frame _).1
  | readPartition work i =>
    obtain rfl := Option.some.inj hop
    exact (next_readPartition_frame work i).1
  | free work freeing copy =>
    obtain rfl := Option.some.inj hop
    cases freeing <;> exact (holds_free work _ copy).1
  | removeTmpc work =>
    obtain rfl := Option.some.inj hop
    exact (holds_createNewPartitions _ _).1
  | createPartition count i taken =>
    obtain rfl := Option.some.inj hop
    exact (holds_createNewPartitions _ _).1
  | _ =>
    obtain rfl := Option.some.inj hop
    cases reply with
    | found found => cases found <;> rfl
    | _ => rfl

theorem locks_bitmap (hop : point.op = some op) :
    op.Locks .bitmap shared point.holdsBitmap (point.next reply).holdsBitmap := by
  cases point with
  | finished => cases hop
  | readTime named => cases named <;> obtain rfl := Option.some.inj hop <;> rfl
  | take count i taken taking =>
    cases taking with
    | semWait =>
      obtain rfl := Option.some.inj hop
      exact ⟨rfl, rfl⟩
    | semPost =>
      obtain rfl := Option.some.inj hop
      exact ⟨rfl, rfl⟩
    | _ =>
      obtain rfl := Option.some.inj hop
      cases reply with
      | found found => cases found <;> rfl
      | _ => rfl
  | semWait work =>
    obtain rfl := Option.some.inj hop
    exact ⟨rfl, rfl⟩
  | semPost work =>
    obtain rfl := Option.some.inj hop
    exact ⟨rfl, rfl⟩
  | readTmpc count =>
    obtain rfl := Option.some.inj hop
    exact (startCompaction_frame _).2.1
  | createTmpc count blocks =>
    obtain rfl := Option.some.inj hop
    exact (startCompaction_frame _).2.1
  | readPartition work i =>
    obtain rfl := Option.some.inj hop
    exact (next_readPartition_frame work i).2.1
  | free work freeing copy =>
    obtain rfl := Option.some.inj hop
    cases freeing <;> exact (holds_free work _ copy).2
  | removeTmpc work =>
    obtain rfl := Option.some.inj hop
    exact (holds_createNewPartitions _ _).2
  | createPartition count i taken =>
    obtain rfl := Option.some.inj hop
    exact (holds_createNewPartitions _ _).2
  | _ =>
    obtain rfl := Option.some.inj hop
    cases reply with
    | found found => cases found <;> rfl
    | _ => rfl

theorem holdsSelect_of_removes (h : point.removes = true) : point.holdsSelect = true := by
  cases point with
  | destroyTmp work number copy => rfl
  | removeTmpc work => rfl
  | _ => cases h

/-! ### Without files to open -/

theorem op_of_idle (hop : point.op = some op) (hidle : point.filesAhead = false) :
    op.changesFiles = false ∧ op.opens = false := by
  cases point with
  | finished => cases hop
  | readTime named => cases hidle
  | take count i taken taking => cases hidle
  | _ =>
    obtain rfl := Option.some.inj hop
    first | exact ⟨rfl, rfl⟩ | cases hidle

/-- There are files to open when there were before, or when something was found. -/
theorem filesAhead_next (hop : point.op = some op)
    (hdone : shared.perform more op = .done shared' reply)
    (hnext : (point.next reply).filesAhead = true) :
    point.filesAhead = true ∨ point.looks = true ∧ shared.directory ≠ none := by
  cases hahead : point.filesAhead with
  | true => exact Or.inl rfl
  | false =>
    cases point with
    | finished => cases hop
    | readTime named => cases hahead
    | take count i taken taking => cases hahead
    | existTable =>
      obtain rfl := Option.some.inj hop
      refine Or.inr ⟨rfl, fun hnone => ?_⟩
      obtain rfl := perform_gone hnone (Or.inl rfl) hdone
      cases hnext
    | existTmpc count =>
      obtain rfl := Option.some.inj hop
      refine Or.inr ⟨rfl, fun hnone => ?_⟩
      obtain rfl := perform_gone hnone (Or.inr ⟨_, rfl⟩) hdone
      cases hnext
    | existTmp count =>
      obtain rfl := Option.some.inj hop
      refine Or.inr ⟨rfl, fun hnone => ?_⟩
      obtain rfl := perform_gone hnone (Or.inr ⟨_, rfl⟩) hdone
      cases hnext
    | _ =>
      first
        | exact Bool.noConfusion hahead
        | (cases reply with
          | found found => cases found <;> cases hnext
          | _ => cases hnext)

/-! ### What the rest of the run needs -/

theorem Ok.settled (hok : point.Ok others directory partitions bitmap)
    (hrewriting : point.rewriting = false) (hholds : point.holdsBitmap = false) :
    Settled others directory bitmap := by
  cases point with
  | take count i taken taking => cases hrewriting
  | destroyEntry => exact absurd hok id
  | _ =>
    first
      | exact hok
      | exact hok.2
      | exact hok.2.1
      | exact Bool.noConfusion hholds
      | exact Bool.noConfusion hrewriting

theorem Ok.op_frame (hok : point.Ok others directory partitions bitmap)
    (hop : point.op = some op) : op.changesEntry = false ∧ op.uses .liveStatus = false := by
  cases point with
  | finished => cases hop
  | readTime named => cases named <;> obtain rfl := Option.some.inj hop <;> exact ⟨rfl, rfl⟩
  | take count i taken taking =>
    cases taking <;> obtain rfl := Option.some.inj hop <;> exact ⟨rfl, rfl⟩
  | free work freeing copy =>
    obtain rfl := Option.some.inj hop
    cases freeing <;> exact ⟨rfl, rfl⟩
  | destroyEntry =>
    obtain rfl := Option.some.inj hop
    exact absurd hok id
  | _ =>
    obtain rfl := Option.some.inj hop
    exact ⟨rfl, rfl⟩

/-- Partitions are rewritten only after the bitmap was taken. -/
theorem rewriting_next (hrewriting : point.rewriting = false) (hholds : point.holdsBitmap = false) :
    (point.next reply).rewriting = false := by
  cases point with
  | readTmpc count => exact (startCompaction_frame _).2.2
  | createTmpc count blocks => exact (startCompaction_frame _).2.2
  | readPartition work i => exact (next_readPartition_frame work i).2.2
  | _ =>
    first
      | exact Bool.noConfusion hholds
      | exact Bool.noConfusion hrewriting
      | (cases reply with
        | found found => cases found <;> rfl
        | _ => rfl)

end Steps

end CompactionPoint

end TableThreads

end Lissandra
