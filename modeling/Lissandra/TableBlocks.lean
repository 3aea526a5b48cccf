import Lissandra.TableThreads

/-! # The blocks of a table while its threads run

What a bitmap marks, what the archives of a directory have, and what is true of both while blocks
are freed one archive after the other (`perform_freeing`) and while a compaction writes the
partitions anew (`Rewriting`).
-/
namespace Lissandra
namespace TableThreads

/-! ## Marks -/

section Marks
variable {bitmap : List Bool} {blocks : List Nat} {b : Nat}

theorem marked_set_false {i : Nat} :
    Marked (bitmap.set i false) b ↔ Marked bitmap b ∧ b ≠ i + 1 := by
  constructor
  · rintro ⟨j, rfl, hj⟩
    rw [List.getElem?_set] at hj
    split at hj
    · split at hj <;> cases hj
    · rename_i hne
      exact ⟨⟨j, rfl, hj⟩, fun heq => hne (by omega)⟩
  · rintro ⟨⟨j, rfl, hj⟩, hne⟩
    refine ⟨j, rfl, ?_⟩
    rw [List.getElem?_set_ne (by omega)]
    exact hj

theorem marked_cleanBits : Marked (cleanBits bitmap blocks) b ↔ Marked bitmap b ∧ b ∉ blocks := by
  induction blocks generalizing bitmap with
  | nil =>
    rw [cleanBits, List.foldl_nil]
    exact ⟨fun h => ⟨h, List.not_mem_nil⟩, And.left⟩
  | cons block blocks ih =>
    have hcons : cleanBits bitmap (block :: blocks)
        = cleanBits (if block = 0 then bitmap else bitmap.set (block - 1) false) blocks := rfl
    rw [hcons, ih, List.mem_cons, not_or, ← and_assoc]
    refine and_congr_left fun _ => ?_
    split
    · rename_i hzero
      refine ⟨fun h => ⟨h, ?_⟩, And.left⟩
      obtain ⟨i, rfl, -⟩ := h
      omega
    · rename_i hpositive
      rw [marked_set_false, Nat.sub_add_cancel (Nat.one_le_iff_ne_zero.mpr hpositive)]

/-- The block of `find_free_block` was free, and is what is marked as well. -/
theorem marked_findFreeBlock :
    ¬ Marked bitmap ((findFreeBlock bitmap).1 + 1).toNat ∧
      (∀ b, Marked bitmap b → Marked (findFreeBlock bitmap).2 b) ∧
      ∀ b, Marked (findFreeBlock bitmap).2 b →
        Marked bitmap b ∨ b = ((findFreeBlock bitmap).1 + 1).toNat := by
  unfold findFreeBlock
  split
  · rename_i i hfind
    obtain ⟨hlt, hfree, -⟩ := List.findIdx?_eq_some_iff_getElem.mp hfind
    rw [Bool.not_eq_true'] at hfree
    have hblock : ((i : Int) + 1).toNat = i + 1 := by omega
    dsimp only
    rw [hblock]
    refine ⟨?_, ?_, ?_⟩
    · rintro ⟨j, hj, hmarked⟩
      obtain rfl := Nat.succ.inj hj
      rw [List.getElem?_eq_getElem hlt, hfree] at hmarked
      cases hmarked
    · rintro b ⟨j, rfl, hmarked⟩
      refine ⟨j, rfl, ?_⟩
      rw [List.getElem?_set]
      split
      · rfl
      · exact hmarked
    · rintro b ⟨j, rfl, hmarked⟩
      rw [List.getElem?_set] at hmarked
      split at hmarked
      · rename_i heq
        exact Or.inr (by rw [heq])
      · exact Or.inl ⟨j, rfl, hmarked⟩
  · refine ⟨?_, fun _ h => h, fun _ h => Or.inl h⟩
    rintro ⟨j, hj, -⟩
    cases hj

end Marks

/-! ## Files -/

section Files
variable {others : Nat → Prop} {directory : Directory} {partitions number : Nat}
  {name other : ArchiveName} {blocks taken : List Nat} {bitmap : List Bool}
  {kept kept' : ArchiveName → Prop}

@[simp] theorem archive_insert_self :
    Directory.archive (directory.insert (.archive name) blocks) name = some blocks :=
  AList.lookup_insert directory

theorem archive_insert_ne (hne : other ≠ name) :
    Directory.archive (directory.insert (.archive name) blocks) other = directory.archive other :=
  AList.lookup_insert_ne fun heq => hne (FileName.archive.inj heq)

@[simp] theorem metadata_insert :
    Directory.metadata (directory.insert (.archive name) blocks) = directory.metadata :=
  AList.lookup_insert_ne fun heq => FileName.noConfusion heq

theorem archive_erase_ne (hne : other ≠ name) :
    Directory.archive (directory.erase (.archive name)) other = directory.archive other :=
  AList.lookup_erase_ne fun heq => hne (FileName.archive.inj heq)

@[simp] theorem archive_erase_self :
    Directory.archive (directory.erase (.archive name)) name = none :=
  AList.lookup_erase _ directory

@[simp] theorem metadata_erase :
    Directory.metadata (directory.erase (.archive name)) = directory.metadata :=
  AList.lookup_erase_ne fun heq => FileName.noConfusion heq

/-- The metadata and the partitions, with no block of the others. -/
structure Files (others : Nat → Prop) (directory : Directory) (partitions : Nat) : Prop where
  positive : 0 < partitions
  metadata : directory.metadata = some partitions
  partition : ∀ number, (directory.archive (.partition number)).isSome ↔
    1 ≤ number ∧ number ≤ partitions
  apart : ∀ b, directory.Lists b → ¬ others b

/-- The temporary archives are numbered from this one on. -/
def Numbered (directory : Directory) (first : Nat) : Prop :=
  ∀ number, (directory.archive (.tmp number)).isSome → first ≤ number ∧
    ∀ earlier, first ≤ earlier → earlier ≤ number → (directory.archive (.tmp earlier)).isSome

/-- A bitmap marks the blocks of the others, and else only blocks that are taken or that the kept
archives have. -/
structure Covers (others : Nat → Prop) (directory : Directory) (kept : ArchiveName → Prop)
    (taken : List Nat) (bitmap : List Bool) : Prop where
  keeps : ∀ b, others b → Marked bitmap b
  marks : ∀ b, Marked bitmap b → others b ∨ b ∈ taken ∨
    ∃ name blocks, kept name ∧ directory.archive name = some blocks ∧ b ∈ blocks

theorem Covers.mono {directory' : Directory} (h : Covers others directory kept taken bitmap)
    (hkept : ∀ name blocks, kept name → directory.archive name = some blocks →
      kept' name ∧ directory'.archive name = some blocks) :
    Covers others directory' kept' taken bitmap := by
  refine ⟨h.keeps, fun b hb => ?_⟩
  rcases h.marks b hb with hothers | htaken | ⟨name, blocks, hname, hblocks, hmem⟩
  · exact Or.inl hothers
  · exact Or.inr (Or.inl htaken)
  · obtain ⟨hname', hblocks'⟩ := hkept name blocks hname hblocks
    exact Or.inr (Or.inr ⟨name, blocks, hname', hblocks', hmem⟩)

/-- The blocks of an archive are freed. -/
theorem Covers.clean (h : Covers others directory kept taken bitmap)
    (hblocks : directory.archive name = some blocks) (hapart : ∀ b ∈ blocks, ¬ others b)
    (hkept : ∀ other, kept other → other ≠ name → kept' other) :
    Covers others directory kept' taken (cleanBits bitmap blocks) := by
  refine ⟨fun b hb => marked_cleanBits.mpr ⟨h.keeps b hb, fun hmem => hapart b hmem hb⟩,
    fun b hb => ?_⟩
  obtain ⟨hmarked, hnot⟩ := marked_cleanBits.mp hb
  rcases h.marks b hmarked with hothers | htaken | ⟨other, found, hother, hfound, hmem⟩
  · exact Or.inl hothers
  · exact Or.inr (Or.inl htaken)
  · refine Or.inr (Or.inr ⟨other, found, hkept other hother ?_, hfound, hmem⟩)
    rintro rfl
    obtain rfl := Option.some.inj (hblocks.symm.trans hfound)
    exact hnot hmem

/-- A block is taken. -/
theorem Covers.take (h : Covers others directory kept taken bitmap) :
    ¬ others ((findFreeBlock bitmap).1 + 1).toNat ∧
      Covers others directory kept (taken ++ [((findFreeBlock bitmap).1 + 1).toNat])
        (findFreeBlock bitmap).2 := by
  obtain ⟨hfree, hkeeps, hmarks⟩ := @marked_findFreeBlock bitmap
  refine ⟨fun hothers => hfree (h.keeps _ hothers), fun b hb => hkeeps b (h.keeps b hb),
    fun b hb => ?_⟩
  rcases hmarks b hb with hold | rfl
  · rcases h.marks b hold with hothers | htaken | hlisted
    · exact Or.inl hothers
    · exact Or.inr (Or.inl (List.mem_append_left _ htaken))
    · exact Or.inr (Or.inr hlisted)
  · exact Or.inr (Or.inl (List.mem_append_right _ (List.mem_singleton.mpr rfl)))

/-- Nothing but the blocks of the others is marked. -/
theorem Covers.marked_iff (h : Covers others directory kept [] bitmap)
    (hnone : ∀ name, ¬ kept name) (b : Nat) : Marked bitmap b ↔ others b := by
  refine ⟨fun hb => ?_, h.keeps b⟩
  rcases h.marks b hb with hothers | htaken | ⟨name, -, hname, -⟩
  · exact hothers
  · cases htaken
  · exact absurd hname (hnone name)

end Files

/-! ## Freeing the blocks of a table -/

/-- The partitions after the first `i`, and the temporary archives. -/
def afterPartition (i : Nat) : ArchiveName → Prop
  | .partition number => i < number
  | .tmp _ => True
  | .tmpc => False

/-- The temporary archives from a number on. -/
def fromTmp (first : Nat) : ArchiveName → Prop
  | .tmp number => first ≤ number
  | _ => False

/-- The archives whose blocks are not freed yet. -/
def Freeing.kept : Freeing → ArchiveName → Prop
  | .metadata => fun name => name ≠ .tmpc
  | .partition _ i => afterPartition i
  | .existTmp first | .tmp first => fromTmp first

/-- What is kept in the end. -/
def keptAfter (tmps : Bool) : ArchiveName → Prop
  | .tmp _ => tmps = false
  | _ => False

/-- What is freed next is there. -/
def Freeing.Ready (directory : Directory) (partitions : Nat) : Freeing → Prop
  | .metadata => True
  | .partition count i => count = partitions ∧ i < partitions
  | .existTmp number => 1 ≤ number
  | .tmp number => 1 ≤ number ∧ (directory.archive (.tmp number)).isSome

/-- The bitmap in memory, on the way. -/
def Freed (others : Nat → Prop) (directory : Directory) (partitions : Nat) (tmps : Bool) :
    Option Freeing × List Bool → Prop
  | (some freeing, bitmap) => freeing.Ready directory partitions ∧
      Covers others directory freeing.kept [] bitmap
  | (none, bitmap) => Covers others directory (keptAfter tmps) [] bitmap

section Freeing
variable {others : Nat → Prop} {directory : Directory} {partitions : Nat} {bitmap : List Bool}
  {shared : Shared} {more tmps : Bool} {freeing : Freeing}

/-- Between two partitions, or after the last one. -/
theorem freed_fromPartition (hfiles : Files others directory partitions)
    (hnumbered : Numbered directory 1) {i : Nat}
    (hcovers : Covers others directory (Freeing.partition partitions i).kept [] bitmap) :
    Freed others directory partitions tmps (Freeing.fromPartition tmps partitions i, bitmap) := by
  unfold Freeing.fromPartition
  split
  · rename_i hlt
    exact ⟨⟨rfl, hlt⟩, hcovers⟩
  · rename_i hlast
    split
    · refine ⟨le_rfl, hcovers.mono fun name blocks hkept hblocks => ⟨?_, hblocks⟩⟩
      cases name with
      | partition number =>
        have hbound := (hfiles.partition number).mp (Option.isSome_of_eq_some hblocks)
        exact absurd (show i < number from hkept) (by omega)
      | tmp number => exact (hnumbered number (Option.isSome_of_eq_some hblocks)).1
      | tmpc => exact hkept
    · rename_i htmps
      refine hcovers.mono fun name blocks hkept hblocks => ⟨?_, hblocks⟩
      cases name with
      | partition number =>
        have hbound := (hfiles.partition number).mp (Option.isSome_of_eq_some hblocks)
        exact absurd (show i < number from hkept) (by omega)
      | tmp number => exact (Bool.not_eq_true _).mp htmps
      | tmpc => exact hkept

theorem perform_readTableMetadata (hdirectory : shared.directory = some directory)
    (hmetadata : directory.metadata = some partitions) :
    shared.perform more .readTableMetadata = .done shared (.partitions partitions) := by
  rw [Shared.perform, hdirectory, Option.bind_eq_bind, Option.bind_some, hmetadata]

theorem perform_readFsArchive {name : ArchiveName} {blocks : List Nat}
    (hdirectory : shared.directory = some directory)
    (hblocks : directory.archive name = some blocks) :
    shared.perform more (.readFsArchive name) = .done shared (.blocks blocks) := by
  rw [Shared.perform, hdirectory, Option.bind_eq_bind, Option.bind_some, hblocks]

theorem perform_existArchive {name : ArchiveName} (hdirectory : shared.directory = some directory) :
    shared.perform more (.existArchive name)
      = .done shared (.found (directory.archive name).isSome) := by
  rw [Shared.perform, hdirectory, Option.bind_eq_bind, Option.bind_some]

theorem perform_createFsArchive {name : ArchiveName} {blocks : List Nat}
    (hdirectory : shared.directory = some directory) :
    shared.perform more (.createFsArchive name blocks) =
      .done { shared with directory := some (directory.insert (.archive name) blocks) } .done := by
  rw [Shared.perform, hdirectory]

theorem perform_remove {name : FileName} (hdirectory : shared.directory = some directory) :
    shared.perform more (.remove name) =
      .done { shared with directory := some (directory.erase name) } .done := by
  rw [Shared.perform, hdirectory, Option.map_some]

/-- Freeing goes on, and finds what it opens. -/
theorem perform_freeing (hdirectory : shared.directory = some directory)
    (hfiles : Files others directory partitions) (hnumbered : Numbered directory 1)
    (hready : freeing.Ready directory partitions)
    (hcovers : Covers others directory freeing.kept [] bitmap) :
    ∃ reply, (∀ more, shared.perform more freeing.op = .done shared reply) ∧
      Freed others directory partitions tmps (freeing.next tmps bitmap reply) := by
  have hapart : ∀ name blocks, name ≠ .tmpc → directory.archive name = some blocks →
      ∀ b ∈ blocks, ¬ others b := fun name blocks hname hblocks b hmem =>
    hfiles.apart b ⟨name, blocks, hname, hblocks, hmem⟩
  cases freeing with
  | metadata =>
    refine ⟨_, fun _ => perform_readTableMetadata hdirectory hfiles.metadata, ?_⟩
    apply freed_fromPartition hfiles hnumbered
    refine hcovers.mono fun name blocks hkept hblocks => ⟨?_, hblocks⟩
    cases name with
    | partition number => exact ((hfiles.partition number).mp (Option.isSome_of_eq_some hblocks)).1
    | tmp number => exact trivial
    | tmpc => exact absurd rfl hkept
  | partition count i =>
    obtain ⟨rfl, hlt⟩ := hready
    obtain ⟨blocks, hblocks⟩ := Option.isSome_iff_exists.mp
      ((hfiles.partition (i + 1)).mpr ⟨by omega, by omega⟩)
    refine ⟨_, fun _ => perform_readFsArchive hdirectory hblocks, ?_⟩
    apply freed_fromPartition hfiles hnumbered
    refine hcovers.clean hblocks (hapart _ _ (fun h => by cases h) hblocks)
      fun other hkept hne => ?_
    cases other with
    | partition number =>
      have hnumber : number ≠ i + 1 := fun heq => hne (congrArg _ heq)
      have hkept : i < number := hkept
      show i + 1 < number
      omega
    | tmp number => exact trivial
    | tmpc => exact hkept
  | existTmp number =>
    refine ⟨_, fun _ => perform_existArchive hdirectory, ?_⟩
    cases hsome : (directory.archive (.tmp number)).isSome with
    | true => exact ⟨⟨hready, hsome⟩, hcovers⟩
    | false =>
      -- no later one is there either
      refine hcovers.mono fun name blocks hkept hblocks => ⟨?_, hblocks⟩
      cases name with
      | partition other => exact hkept
      | tmp later =>
        have hearlier := (hnumbered later (Option.isSome_of_eq_some hblocks)).2 number hready hkept
        rw [hsome] at hearlier
        cases hearlier
      | tmpc => exact hkept
  | tmp number =>
    obtain ⟨hnumber, hsome⟩ := hready
    obtain ⟨blocks, hblocks⟩ := Option.isSome_iff_exists.mp hsome
    refine ⟨_, fun _ => perform_readFsArchive hdirectory hblocks, ?_, ?_⟩
    · show 1 ≤ number + 1
      omega
    · refine hcovers.clean hblocks (hapart _ _ (fun h => by cases h) hblocks)
        fun other hkept hne => ?_
      cases other with
      | partition other => exact hkept
      | tmp later =>
        have hlater : later ≠ number := fun heq => hne (congrArg _ heq)
        have hkept : number ≤ later := hkept
        show number + 1 ≤ later
        omega
      | tmpc => exact hkept

end Freeing
/-! ## Compaction -/

/-- The partitions up to `i`, and the temporary archives. -/
def rewritten (i : Nat) : ArchiveName → Prop
  | .partition number => number ≤ i
  | .tmp _ => True
  | .tmpc => False

/-- The bitmap marks what the partitions and the temporary archives have. -/
def Settled (others : Nat → Prop) (directory : Directory) (bitmap : List Bool) : Prop :=
  Numbered directory 1 ∧ Covers others directory (fun name => name ≠ .tmpc) [] bitmap

/-- The bitmap marks what the first `i` partitions have, which are new, and what is taken. -/
structure Rewriting (others : Nat → Prop) (directory : Directory) (bitmap : List Bool) (i : Nat)
    (taken : List Nat) : Prop where
  numbered : Numbered directory 1
  covers : Covers others directory (rewritten i) taken bitmap
  apart : ∀ b ∈ taken, ¬ others b

section Rewriting
variable {others : Nat → Prop} {directory directory' : Directory} {partitions i number : Nat}
  {bitmap : List Bool} {taken : List Nat}

theorem Directory.Lists.same {b : Nat} (h : directory'.Lists b)
    (hsame : ∀ name, name ≠ .tmpc → directory'.archive name = directory.archive name) :
    directory.Lists b := by
  obtain ⟨name, blocks, hname, hblocks, hmem⟩ := h
  exact ⟨name, blocks, hname, by rw [← hsame name hname, hblocks], hmem⟩

/-- A directory that differs in A1.tmpc only. -/
theorem Files.same (h : Files others directory partitions)
    (hmetadata : directory'.metadata = directory.metadata)
    (hsame : ∀ name, name ≠ .tmpc → directory'.archive name = directory.archive name) :
    Files others directory' partitions := by
  refine ⟨h.positive, hmetadata.trans h.metadata, fun number => ?_,
    fun b hb => h.apart b (hb.same hsame)⟩
  rw [hsame _ fun heq => by cases heq]
  exact h.partition number

theorem Numbered.same {first : Nat} (h : Numbered directory first)
    (hsame : ∀ name, name ≠ .tmpc → directory'.archive name = directory.archive name) :
    Numbered directory' first := by
  have htmp : ∀ number, directory'.archive (.tmp number) = directory.archive (.tmp number) :=
    fun number => hsame _ fun heq => by cases heq
  intro number hnumber
  rw [htmp] at hnumber
  obtain ⟨hfirst, hearlier⟩ := h number hnumber
  refine ⟨hfirst, fun earlier hlower hupper => ?_⟩
  rw [htmp]
  exact hearlier earlier hlower hupper

theorem Covers.same {kept : ArchiveName → Prop} (h : Covers others directory kept taken bitmap)
    (hkept : ∀ name, kept name → name ≠ .tmpc)
    (hsame : ∀ name, name ≠ .tmpc → directory'.archive name = directory.archive name) :
    Covers others directory' kept taken bitmap :=
  h.mono fun name _ hname hblocks => ⟨hname, (hsame name (hkept name hname)).trans hblocks⟩

theorem Settled.same (h : Settled others directory bitmap)
    (hsame : ∀ name, name ≠ .tmpc → directory'.archive name = directory.archive name) :
    Settled others directory' bitmap :=
  ⟨h.1.same hsame, h.2.same (fun _ hname => hname) hsame⟩

theorem rewritten_ne_tmpc (name : ArchiveName) (h : rewritten i name) : name ≠ .tmpc := by
  rintro rfl
  exact h

theorem Rewriting.same (h : Rewriting others directory bitmap i taken)
    (hsame : ∀ name, name ≠ .tmpc → directory'.archive name = directory.archive name) :
    Rewriting others directory' bitmap i taken :=
  ⟨h.numbered.same hsame, h.covers.same rewritten_ne_tmpc hsame, h.apart⟩

/-- All partitions are new. -/
theorem Rewriting.settled (h : Rewriting others directory bitmap i []) :
    Settled others directory bitmap :=
  ⟨h.numbered, h.covers.mono fun name _ hname hblocks => ⟨rewritten_ne_tmpc name hname, hblocks⟩⟩

theorem archive_erase_of_isSome {name other : ArchiveName}
    (h : (Directory.archive (directory.erase (.archive name)) other).isSome) :
    other ≠ name ∧ (directory.archive other).isSome := by
  have hne : other ≠ name := by
    rintro rfl
    rw [archive_erase_self] at h
    cases h
  rw [archive_erase_ne hne] at h
  exact ⟨hne, h⟩

/-- A directory without a file has no other blocks. -/
theorem Directory.Lists.of_erase {file : FileName} {b : Nat}
    (h : Directory.Lists (directory.erase file) b) : directory.Lists b := by
  obtain ⟨name, blocks, hname, hblocks, hmem⟩ := h
  refine ⟨name, blocks, hname, ?_, hmem⟩
  by_cases heq : FileName.archive name = file
  · subst heq
    rw [archive_erase_self] at hblocks
    cases hblocks
  · rw [← hblocks]
    exact (AList.lookup_erase_ne heq).symm

/-- A temporary archive is removed. -/
theorem Files.eraseTmp (h : Files others directory partitions) (number : Nat) :
    Files others (directory.erase (.archive (.tmp number))) partitions := by
  refine ⟨h.positive, metadata_erase.trans h.metadata, fun other => ?_,
    fun b hlists => h.apart b hlists.of_erase⟩
  rw [archive_erase_ne fun heq => by cases heq]
  exact h.partition other

theorem Numbered.eraseTmp (h : Numbered directory number) :
    Numbered (directory.erase (.archive (.tmp number))) (number + 1) := by
  intro later hlater
  obtain ⟨hne, hsome⟩ := archive_erase_of_isSome hlater
  obtain ⟨hfirst, hearlier⟩ := h later hsome
  have hdiffer : later ≠ number := fun heq => hne (congrArg _ heq)
  refine ⟨by omega, fun earlier hlower hupper => ?_⟩
  rw [archive_erase_ne fun heq => by cases heq; omega]
  exact hearlier earlier (by omega) hupper

/-- A partition is written anew. -/
theorem Files.insertPartition (h : Files others directory partitions) (hi : i < partitions)
    (hapart : ∀ b ∈ taken, ¬ others b) :
    Files others (directory.insert (.archive (.partition (i + 1))) taken) partitions := by
  refine ⟨h.positive, metadata_insert.trans h.metadata, fun number => ?_, ?_⟩
  · by_cases heq : number = i + 1
    · subst heq
      rw [archive_insert_self]
      exact ⟨fun _ => ⟨by omega, by omega⟩, fun _ => rfl⟩
    · rw [archive_insert_ne fun hname => heq (ArchiveName.partition.inj hname)]
      exact h.partition number
  · rintro b ⟨name, blocks, hname, hblocks, hmem⟩
    by_cases heq : name = .partition (i + 1)
    · subst heq
      rw [archive_insert_self] at hblocks
      obtain rfl := Option.some.inj hblocks
      exact hapart b hmem
    · rw [archive_insert_ne heq] at hblocks
      exact h.apart b ⟨name, blocks, hname, hblocks, hmem⟩

theorem Rewriting.insertPartition (h : Rewriting others directory bitmap i taken) :
    Rewriting others (directory.insert (.archive (.partition (i + 1))) taken) bitmap
      (i + 1) [] := by
  refine ⟨?_, ⟨h.covers.keeps, fun b hb => ?_⟩, fun b hb => by cases hb⟩
  · intro number hnumber
    rw [archive_insert_ne fun heq => by cases heq] at hnumber
    obtain ⟨hfirst, hearlier⟩ := h.numbered number hnumber
    refine ⟨hfirst, fun earlier hlower hupper => ?_⟩
    rw [archive_insert_ne fun heq => by cases heq]
    exact hearlier earlier hlower hupper
  · rcases h.covers.marks b hb with hothers | htaken | ⟨name, blocks, hname, hblocks, hmem⟩
    · exact Or.inl hothers
    · exact Or.inr (Or.inr ⟨.partition (i + 1), taken, le_rfl, archive_insert_self, htaken⟩)
    · refine Or.inr (Or.inr ⟨name, blocks, ?_, ?_, hmem⟩)
      · cases name with
        | partition number => exact Nat.le_succ_of_le hname
        | tmp number => exact trivial
        | tmpc => exact hname
      · rw [archive_insert_ne ?_, hblocks]
        rintro rfl
        exact absurd hname (Nat.not_succ_le_self i)

end Rewriting

end TableThreads

end Lissandra
