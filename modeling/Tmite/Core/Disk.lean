import Mathlib.Logic.Basic

namespace Tmite.Core

/-!
# TOML files replaced by rename

`State::persist_locked` and `ClientStore::save` write a file the same way: serialise, write
the text to `<file>.toml.tmp`, rename it over the file.  Each of the three steps can fail, and
the file itself only ever changes by the (atomic) rename.  The `toml` crate is a parameter,
`Toml`, of which the code relies on one thing: what was printed parses back.
-/

universe u v
variable {α : Type u} {Text : Type v}

/-- The `toml` crate at one type, with texts in `Text`. -/
structure Toml (α : Type u) (Text : Type v) where
  toStringPretty : α → Text
  fromStr : Text → Except String α
  fromStr_toStringPretty : ∀ x, fromStr (toStringPretty x) = .ok x

/-- The codec whose texts are the values themselves, for evaluating the model. -/
def Toml.self (α : Type u) : Toml α α where
  toStringPretty := id
  fromStr := .ok
  fromStr_toStringPretty := fun _ => rfl

/-- A file and the temp file next to it; `none` is a file that does not exist. -/
structure Files (Text : Type v) where
  file : Option Text
  tmp : Option Text
deriving DecidableEq

/-- No file yet. -/
def Files.empty : Files Text := ⟨none, none⟩

/-- Where one save goes wrong: serialising, `fs::write` (which may leave part of a temp file
    behind) or `fs::rename`. -/
inductive WriteFault (Text : Type v)
  | serialize (e : String)
  | write (e : String) (left : Option Text)
  | rename (e : String)
deriving DecidableEq

/-- The error a failed save reports. -/
inductive SaveError
  | serialize (e : String)
  | io (e : String)
deriving DecidableEq

/-- Serialise, write the temp file, rename it over the file. -/
def writeAndRename (T : Toml α Text) (fault : Option (WriteFault Text)) (x : α)
    (disk : Files Text) : Files Text × Except SaveError Unit :=
  match fault with
  | some (.serialize e) => (disk, .error (.serialize e))
  | some (.write e left) => ({ disk with tmp := left }, .error (.io e))
  | some (.rename e) => ({ disk with tmp := some (T.toStringPretty x) }, .error (.io e))
  | none => ({ file := some (T.toStringPretty x), tmp := none }, .ok ())

/-- A save that goes through leaves exactly the printed value in the file. -/
@[simp] theorem writeAndRename_none (T : Toml α Text) (x : α) (disk : Files Text) :
    writeAndRename T none x disk = ({ file := some (T.toStringPretty x), tmp := none }, .ok ()) :=
  rfl

/-- A save that fails reports an error and leaves the file as it was. -/
theorem writeAndRename_some (T : Toml α Text) (f : WriteFault Text) (x : α)
    (disk : Files Text) :
    (writeAndRename T (some f) x disk).1.file = disk.file ∧
      ∃ e, (writeAndRename T (some f) x disk).2 = .error e := by
  cases f with
  | serialize e => exact ⟨rfl, _, rfl⟩
  | write e left => exact ⟨rfl, _, rfl⟩
  | rename e => exact ⟨rfl, _, rfl⟩

end Tmite.Core
