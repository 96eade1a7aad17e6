import Mathlib.Data.List.Basic
import Mathlib.Logic.Function.Basic

namespace Tmite.Core

/-!
# A file and its temp file, inode by inode

`Files` is enough where one task at a time saves.  Where several do, two of them can have the same
temp file open: a name refers to an inode, `rename` moves the name and leaves the descriptors, and
a write goes to the descriptor's inode under whatever name it has by then.
-/

universe v
variable {Byte : Type v}

/-- The inodes the file and its temp file are, if they exist, and what the inodes hold. -/
structure DataDir (Byte : Type v) where
  file : Option ℕ
  tmp : Option ℕ
  contents : ℕ → List Byte
  /-- The next inode. -/
  fresh : ℕ

namespace DataDir

/-- Neither of the two exists. -/
def empty : DataDir Byte := ⟨none, none, fun _ => [], 0⟩

/-- `OpenOptions::new().write(true).create(true).truncate(true).open(tmp)`. -/
def openTmp (d : DataDir Byte) : DataDir Byte × ℕ :=
  match d.tmp with
  | some ino => ({ d with contents := Function.update d.contents ino [] }, ino)
  | none =>
    ({ d with tmp := some d.fresh, contents := Function.update d.contents d.fresh []
              fresh := d.fresh + 1 }, d.fresh)

/-- What a write at `off` leaves; a gap reads as `zero`. -/
def overwrite (zero : Byte) (content : List Byte) (off : ℕ) (chunk : List Byte) : List Byte :=
  content.take off ++ List.replicate (off - content.length) zero ++ chunk ++
    content.drop (off + chunk.length)

/-- A `write` through a descriptor. -/
def writeAt (zero : Byte) (d : DataDir Byte) (ino off : ℕ) (chunk : List Byte) : DataDir Byte :=
  { d with contents := Function.update d.contents ino (overwrite zero (d.contents ino) off chunk) }

/-- `fs::rename(tmp, path)`; `none` where there is no temp file. -/
def rename (d : DataDir Byte) : Option (DataDir Byte) :=
  d.tmp.map fun ino => { d with file := some ino, tmp := none }

/-- `fs::remove_file(path)`; `none` where there is no file. -/
def removeFile (d : DataDir Byte) : Option (DataDir Byte) :=
  d.file.map fun _ => { d with file := none }

@[simp] theorem openTmp_file (d : DataDir Byte) : d.openTmp.1.file = d.file := by
  unfold openTmp
  split <;> rfl

@[simp] theorem openTmp_tmp (d : DataDir Byte) : d.openTmp.1.tmp = some d.openTmp.2 := by
  unfold openTmp
  split
  · assumption
  · rfl

@[simp] theorem openTmp_contents (d : DataDir Byte) :
    d.openTmp.1.contents d.openTmp.2 = [] := by
  unfold openTmp
  split <;> simp

@[simp] theorem overwrite_length (zero : Byte) (content chunk : List Byte) :
    overwrite zero content content.length chunk = content ++ chunk := by
  simp [overwrite]

@[simp] theorem writeAt_file (zero : Byte) (d : DataDir Byte) (ino off : ℕ) (chunk : List Byte) :
    (d.writeAt zero ino off chunk).file = d.file := rfl

@[simp] theorem writeAt_tmp (zero : Byte) (d : DataDir Byte) (ino off : ℕ) (chunk : List Byte) :
    (d.writeAt zero ino off chunk).tmp = d.tmp := rfl

/-- A descriptor at the end of its file appends. -/
theorem writeAt_contents (zero : Byte) (d : DataDir Byte) (ino : ℕ) (chunk : List Byte) :
    (d.writeAt zero ino (d.contents ino).length chunk).contents ino = d.contents ino ++ chunk := by
  simp [writeAt]

end DataDir

end Tmite.Core
