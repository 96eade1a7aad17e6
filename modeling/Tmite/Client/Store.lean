import Tmite.Core.Disk
import Mathlib.Data.List.Basic

namespace Tmite.Client

open Tmite.Core

/-!
# The client's registry of servers (`servers.toml`, `fsio.rs`)

`ClientStore` maps local aliases to server node ids.  `upsert` keys entries by node id and
refuses an alias that is bound to a different server.
-/

universe v
variable {Text : Type v}

/-- `FsError`; wrapped errors are their texts. -/
inductive FsError
  | io (e : String)
  | toml (e : String)
  | tomlSer (e : String)
  | badKeypair
  | noHome
  | nameInUse (name : String)
deriving DecidableEq, Repr

structure ServerEntry where
  name : String
  nodeId : String
  pairedAt : String
  forwards : List String
deriving DecidableEq, Repr

structure ClientStore where
  version : ℕ
  servers : List ServerEntry
deriving DecidableEq, Repr

/-- `From<toml::ser::Error>` and `From<std::io::Error>`. -/
def FsError.ofSave : SaveError → FsError
  | .serialize e => tomlSer e
  | .io e => io e

namespace ClientStore

variable (T : Toml ClientStore Text)

/-- `ClientStore::load`.  `readError` is an I/O error other than `NotFound`. -/
def load (disk : Files Text) (readError : Option String := none) : Except FsError ClientStore :=
  match readError, disk.file with
  | some e, _ => .error (.io e)
  | none, none => .ok ⟨1, []⟩
  | none, some text =>
    match T.fromStr text with
    | .ok store => .ok store
    | .error e => .error (.toml e)

/-- `ClientStore::save`. -/
def save (fault : Option (WriteFault Text)) (store : ClientStore) (disk : Files Text) :
    Files Text × Except FsError Unit :=
  let (disk, r) := writeAndRename T fault store disk
  (disk, r.mapError .ofSave)

/-- The alias is bound to a different server. -/
def nameTaken (store : ClientStore) (name nodeId : String) : Bool :=
  store.servers.any (fun s => s.name == name && s.nodeId != nodeId)

/-- `ClientStore::upsert`. -/
def upsert (store : ClientStore) (entry : ServerEntry) : Except FsError ClientStore :=
  if store.nameTaken entry.name entry.nodeId then .error (.nameInUse entry.name)
  else
    match store.servers.findIdx? (fun s => s.nodeId == entry.nodeId) with
    | some i => .ok { store with servers := store.servers.set i entry }
    | none => .ok { store with servers := store.servers ++ [entry] }

/-- `ClientStore::get_by_node_id`. -/
def getByNodeId (store : ClientStore) (nodeId : String) : Option ServerEntry :=
  store.servers.find? (fun s => s.nodeId == nodeId)

/-- An `upsert` is refused exactly for an alias bound to a different server. -/
theorem upsert_error_iff (store : ClientStore) (entry : ServerEntry) :
    (∃ e, store.upsert entry = .error e) ↔
      store.nameTaken entry.name entry.nodeId = true := by
  simp only [upsert]
  constructor
  · rintro ⟨e, he⟩
    by_contra hfree
    rw [if_neg hfree] at he
    split at he <;> exact absurd he (by simp)
  · intro htaken
    rw [if_pos htaken]
    exact ⟨_, rfl⟩

/-- Otherwise the entry is in the store, in the place of the server's old one if it had one. -/
theorem upsert_mem {store store' : ClientStore} {entry : ServerEntry}
    (h : store.upsert entry = .ok store') : entry ∈ store'.servers := by
  simp only [upsert] at h
  split at h
  · exact absurd h (by simp)
  · split at h
    · rename_i i hi
      cases h
      obtain ⟨hlt, -⟩ := List.findIdx?_eq_some_iff_getElem.mp hi
      exact List.mem_of_getElem? (List.getElem?_set_self hlt)
    · cases h
      exact List.mem_append_right _ (List.mem_singleton.mpr rfl)

/-- What was saved is what the next load returns. -/
theorem load_save_none (store : ClientStore) (disk : Files Text) :
    load T (save T none store disk).1 = .ok store := by
  simp only [save, writeAndRename_none, load, T.fromStr_toStringPretty]

end ClientStore

end Tmite.Client
